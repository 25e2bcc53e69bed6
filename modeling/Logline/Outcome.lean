import Logline.Error
/-!
How computations end.  One that gives up half-way panics; whoever called it may
go on.
-/
namespace Logline

/-- What a computation that gives up leaves behind: a message, or something
that is no text. -/
inductive Panic
  | message (t : Text)
  | other
deriving DecidableEq, Repr

namespace Panic

def text : Panic → Text
  | message t => t
  | other => "Unknown panic".toList

end Panic

/-- How a computation ends that can fail in two ways. -/
inductive Outcome (α : Type)
  | done (a : α)
  | failed (e : Error)
  | panicked (p : Panic)
deriving DecidableEq, Repr

@[simp] theorem Except.ok_bind {ε α β : Type} (a : α) (next : α → Except ε β) :
    Except.ok a >>= next = next a := rfl

theorem Except.bind_eq_ok {ε α β : Type} {first : Except ε α}
    {next : α → Except ε β} {b : β} (h : first >>= next = .ok b) :
    ∃ a, first = .ok a ∧ next a = .ok b := by
  cases first with
  | error e => contradiction
  | ok a => exact ⟨a, rfl, h⟩

theorem Except.map_eq_ok {ε α β : Type} {f : α → β} {result : Except ε α}
    {b : β} (h : result.map f = .ok b) :
    ∃ a, result = .ok a ∧ f a = b := by
  cases result with
  | error e => contradiction
  | ok a => exact ⟨a, rfl, Except.ok.inj h⟩

end Logline
