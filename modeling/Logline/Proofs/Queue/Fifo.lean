import Logline.Proofs.Queue.Contents
/-!
The ring of slots is a bounded first-in first-out queue.  `Fifo` is that queue
as a plain list; a `Request` is one call of either, with its `Answer`.  The
main statement, `serveAll_new_eq_fifo`, lets both answer any sequence of
requests: the answers are the same, and afterwards the ring represents the
list.
-/
namespace Logline

/-- A bounded queue as the list of its payloads, the oldest first. -/
structure Fifo where
  capacity : Nat
  items : List Bytes
  closed : Bool
deriving DecidableEq, Repr

namespace Fifo

def new (capacity : Nat) : Fifo := ⟨capacity, [], false⟩

/-- A closed queue says so even if it is full as well. -/
def put (payload : Bytes) (f : Fifo) : Except Error Fifo :=
  if f.closed then .error .queueClosed
  else if f.items.length = f.capacity then
    .error (.queueFull f.items.length f.capacity)
  else .ok { f with items := f.items ++ [payload] }

/-- Too few free slots discard a payload even if the queue is closed as well. -/
def putIfAbove (payload : Bytes) (guard : Nat) (f : Fifo) :
    Except Error (Bool × Fifo) :=
  if f.capacity - f.items.length ≤ guard then .ok (false, f)
  else (f.put payload).map (true, ·)

/-- The oldest payload, the end of the queue, or nothing yet. -/
def take (f : Fifo) : Option (Option Bytes × Fifo) :=
  match f.items with
  | payload :: rest => some (some payload, { f with items := rest })
  | [] => if f.closed then some (none, f) else none

/-- The same into a buffer, which the end of the queue leaves as it is. -/
def takeInto (out : Bytes) (f : Fifo) : Option (Bool × Bytes × Fifo) :=
  match f.items with
  | payload :: rest => some (true, payload, { f with items := rest })
  | [] => if f.closed then some (false, out, f) else none

def close (f : Fifo) : Fifo := { f with closed := true }

end Fifo

namespace Queue

/-- One call of a queue. -/
inductive Request
  | put (payload : Bytes)
  | putIfAbove (payload : Bytes) (guard : Nat)
  | take
  /-- Takes into a buffer with this content. -/
  | takeInto (out : Bytes)
  | close
deriving DecidableEq, Repr

/-- What a call comes back with, if it does. -/
inductive Answer
  | accepted
  | discarded
  | refused (e : Error)
  | taken (payload : Bytes)
  /-- The content of the caller's buffer, and whether it is a payload. -/
  | takenInto (found : Bool) (out : Bytes)
  | drained
  | wouldBlock
  | closed
deriving DecidableEq, Repr

namespace Answer

/-- The payload of the call did not get into the queue. -/
def isRefusal : Answer → Bool
  | discarded => true
  | refused _ => true
  | _ => false

variable {α β : Type}

def ofPut (q : α) : Except Error α → Answer × α
  | .ok q' => (accepted, q')
  | .error e => (refused e, q)

def ofPutIfAbove (q : α) : Except Error (Bool × α) → Answer × α
  | .ok (true, q') => (accepted, q')
  | .ok (false, q') => (discarded, q')
  | .error e => (refused e, q)

def ofTake (q : α) : Option (Option Bytes × α) → Answer × α
  | some (some payload, q') => (taken payload, q')
  | some (none, q') => (drained, q')
  | none => (wouldBlock, q)

def ofTakeInto (q : α) : Option (Bool × Bytes × α) → Answer × α
  | some (found, out, q') => (takenInto found out, q')
  | none => (wouldBlock, q)

theorem ofPut_eq_self_of_isRefusal {q : α} {result : Except Error α}
    (hrefused : (ofPut q result).1.isRefusal = true) :
    (ofPut q result).2 = q := by
  cases result with
  | error e => rfl
  | ok next => simp [ofPut, isRefusal] at hrefused

theorem ofPutIfAbove_eq_self_of_isRefusal {q : α}
    {result : Except Error (Bool × α)}
    (hdiscard : ∀ next, result = .ok (false, next) → next = q)
    (hrefused : (ofPutIfAbove q result).1.isRefusal = true) :
    (ofPutIfAbove q result).2 = q := by
  rcases result with e | ⟨_ | _, next⟩
  · rfl
  · exact hdiscard next rfl
  · simp [ofPutIfAbove, isRefusal] at hrefused

theorem ofTake_isRefusal (q : α) (result : Option (Option Bytes × α)) :
    (ofTake q result).1.isRefusal = false := by
  rcases result with _ | ⟨_ | _, _⟩ <;> rfl

theorem ofTakeInto_isRefusal (q : α) (result : Option (Bool × Bytes × α)) :
    (ofTakeInto q result).1.isRefusal = false := by
  rcases result with _ | ⟨_, _, _⟩ <;> rfl

end Answer

end Queue

open Queue

def Fifo.serve (f : Fifo) : Request → Answer × Fifo
  | .put payload => Answer.ofPut f (f.put payload)
  | .putIfAbove payload guard =>
      Answer.ofPutIfAbove f (f.putIfAbove payload guard)
  | .take => Answer.ofTake f f.take
  | .takeInto out => Answer.ofTakeInto f (f.takeInto out)
  | .close => (.closed, f.close)

/-- The answers to requests one after the other, and the queue they leave. -/
def Fifo.serveAll (f : Fifo) : List Request → List Answer × Fifo
  | [] => ([], f)
  | request :: rest =>
      let (answer, next) := f.serve request
      let (answers, last) := next.serveAll rest
      (answer :: answers, last)

theorem Fifo.serve_capacity (f : Fifo) (request : Request) :
    (f.serve request).2.capacity = f.capacity := by
  cases request with
  | put payload =>
      rw [serve, put]
      split
      · rfl
      · split <;> rfl
  | putIfAbove payload guard =>
      rw [serve, putIfAbove, put]
      split
      · rfl
      · split
        · rfl
        · split <;> rfl
  | take =>
      rw [serve, take]
      split
      · rfl
      · split <;> rfl
  | takeInto out =>
      rw [serve, takeInto]
      split
      · rfl
      · split <;> rfl
  | close => rfl

theorem Fifo.serveAll_capacity (f : Fifo) (requests : List Request) :
    (f.serveAll requests).2.capacity = f.capacity := by
  induction requests generalizing f with
  | nil => rfl
  | cons request rest ih =>
      exact (ih (f.serve request).2).trans (f.serve_capacity request)

namespace Ring

def serve (q : Ring) : Request → Answer × Ring
  | .put payload => Answer.ofPut q (q.put payload)
  | .putIfAbove payload guard =>
      Answer.ofPutIfAbove q (q.putIfAbove payload guard)
  | .take => Answer.ofTake q q.take
  | .takeInto out => Answer.ofTakeInto q (q.takeInto out)
  | .close => (.closed, q.close)

def serveAll (q : Ring) : List Request → List Answer × Ring
  | [] => ([], q)
  | request :: rest =>
      let (answer, next) := q.serve request
      let (answers, last) := next.serveAll rest
      (answer :: answers, last)

/-- The ring holds the items of the list in its live slots, which lie between
its two indices, and nothing in the others. -/
structure Represents (q : Ring) (f : Fifo) : Prop where
  capacity_eq : q.capacity = f.capacity
  closed_eq : q.closed = f.closed
  contents_eq :
    (List.range q.count).map
        (fun offset => q.slot ((q.takeIndex + offset) % q.capacity)) =
      f.items
  count_le : q.count ≤ q.capacity
  putIndex_lt : q.putIndex < q.capacity
  takeIndex_lt : q.takeIndex < q.capacity
  putIndex_eq : q.putIndex = (q.takeIndex + q.count) % q.capacity
  vacant : ∀ index < q.capacity,
    (∀ offset < q.count, (q.takeIndex + offset) % q.capacity ≠ index) →
      q.slot index = []

/-- The list that a ring represents. -/
def toFifo (q : Ring) : Fifo := ⟨q.capacity, q.contents, q.closed⟩

theorem Valid.represents_toFifo {q : Ring} (h : q.Valid) :
    q.Represents q.toFifo :=
  ⟨rfl, rfl, rfl, h.count_le, h.putIndex_lt, h.takeIndex_lt, h.putIndex_eq,
    fun _ hindex houtside => h.slot_eq_nil hindex houtside⟩

section Operations

variable {q : Ring}

/-! ### One operation -/

theorem put_toFifo (h : q.Valid) (payload : Bytes) :
    (q.put payload).map toFifo = q.toFifo.put payload := by
  simp only [put, Fifo.put, toFifo, contents_length]
  by_cases hclosed : q.closed = true
  · simp [hclosed, Except.map]
  · by_cases hfull : q.count = q.capacity
    · simp [hclosed, hfull, Except.map]
    · have hroom : q.count < q.capacity :=
        Nat.lt_of_le_of_ne h.count_le hfull
      simp [hclosed, hfull, Except.map, toFifo,
        accept_contents payload h hroom]

theorem put_valid (h : q.Valid) {payload : Bytes} {q' : Ring}
    (hput : q.put payload = .ok q') : q'.Valid := by
  rw [put] at hput
  split at hput
  · contradiction
  · split at hput
    · contradiction
    · next hfull =>
      rw [Except.ok.injEq] at hput
      subst hput
      exact accept_valid payload h (Nat.lt_of_le_of_ne h.count_le hfull)

theorem putIfAbove_toFifo (h : q.Valid) (payload : Bytes) (guard : Nat) :
    (q.putIfAbove payload guard).map (Prod.map id toFifo) =
      q.toFifo.putIfAbove payload guard := by
  have hput := put_toFifo h payload
  have hitems : q.toFifo.items.length = q.count := contents_length q
  have hcapacity : q.toFifo.capacity = q.capacity := rfl
  rw [putIfAbove, Fifo.putIfAbove, hitems, hcapacity, remaining, ← hput]
  by_cases hguard : q.capacity - q.count ≤ guard
  · simp [hguard, Except.map]
  · cases hq : q.put payload <;> simp [hguard, Except.map]

theorem putIfAbove_valid (h : q.Valid) {payload : Bytes} {guard : Nat}
    {accepted : Bool} {q' : Ring}
    (hput : q.putIfAbove payload guard = .ok (accepted, q')) : q'.Valid := by
  rw [putIfAbove] at hput
  split at hput
  · simp only [Except.ok.injEq, Prod.mk.injEq] at hput
    exact hput.2 ▸ h
  · cases hq : q.put payload with
    | error e => simp [hq, Except.map] at hput
    | ok next =>
        simp only [hq, Except.map, Except.ok.injEq, Prod.mk.injEq] at hput
        exact hput.2 ▸ put_valid h hq

theorem putIfAbove_discard {payload : Bytes} {guard : Nat} {q' : Ring}
    (hput : q.putIfAbove payload guard = .ok (false, q')) : q' = q := by
  rw [putIfAbove] at hput
  split at hput
  · simp only [Except.ok.injEq, Prod.mk.injEq, true_and] at hput
    exact hput.symm
  · cases hq : q.put payload <;> simp [hq, Except.map] at hput

/-- Taking into a buffer is taking: it leaves the same ring, whatever the
buffer held. -/
theorem takeInto_eq_take (q : Ring) (out : Bytes) :
    q.takeInto out =
      q.take.map fun result =>
        (result.1.isSome, result.1.getD out, result.2) := by
  rw [takeInto, take]
  split
  · split <;> rfl
  · rfl

theorem take_toFifo (h : q.Valid) :
    q.take.map (Prod.map id toFifo) = q.toFifo.take := by
  rw [take, Fifo.take]
  by_cases hcount : q.count = 0
  · have hnil : q.toFifo.items = [] := (contents_eq_nil_iff q).mpr hcount
    have hclosed : q.toFifo.closed = q.closed := rfl
    rw [hnil, hclosed]
    cases hc : q.closed <;> simp [hcount]
  · have hcons : q.toFifo.items = q.front :: _ :=
      contents_eq_front_cons q.front.cleared h hcount
    rw [hcons]
    simp [hcount, toFifo]

theorem takeInto_toFifo (h : q.Valid) (out : Bytes) :
    (q.takeInto out).map (Prod.map id (Prod.map id toFifo)) =
      q.toFifo.takeInto out := by
  have htake := take_toFifo h
  have hlist : q.toFifo.takeInto out =
      q.toFifo.take.map fun result =>
        (result.1.isSome, result.1.getD out, result.2) := by
    rw [Fifo.takeInto, Fifo.take]
    split
    · rfl
    · split <;> rfl
  rw [takeInto_eq_take, hlist, ← htake, Option.map_map, Option.map_map]
  rfl

theorem take_valid (h : q.Valid) {payload : Option Bytes} {q' : Ring}
    (htake : q.take = some (payload, q')) : q'.Valid := by
  rw [take] at htake
  split at htake
  · split at htake
    · simp only [Option.some.injEq, Prod.mk.injEq] at htake
      exact htake.2 ▸ h
    · contradiction
  · next hcount =>
    simp only [Option.some.injEq, Prod.mk.injEq] at htake
    exact htake.2 ▸ advance_valid q.front h hcount

theorem takeInto_valid (h : q.Valid) {out buffer : Bytes} {found : Bool}
    {q' : Ring} (htake : q.takeInto out = some (found, buffer, q')) :
    q'.Valid := by
  rw [takeInto_eq_take] at htake
  obtain ⟨⟨payload, next⟩, hnext, heq⟩ := Option.map_eq_some_iff.mp htake
  simp only [Prod.mk.injEq] at heq
  exact heq.2.2 ▸ take_valid h hnext

/-! ### One request -/

theorem serve_toFifo (h : q.Valid) (request : Request) :
    Prod.map id toFifo (q.serve request) = q.toFifo.serve request := by
  cases request with
  | put payload =>
      rw [serve, Fifo.serve, ← put_toFifo h payload]
      cases q.put payload <;> rfl
  | putIfAbove payload guard =>
      rw [serve, Fifo.serve, ← putIfAbove_toFifo h payload guard]
      rcases q.putIfAbove payload guard with e | ⟨_ | _, _⟩ <;> rfl
  | take =>
      rw [serve, Fifo.serve, ← take_toFifo h]
      rcases q.take with _ | ⟨_ | _, _⟩ <;> rfl
  | takeInto out =>
      rw [serve, Fifo.serve, ← takeInto_toFifo h out]
      rcases q.takeInto out with _ | ⟨_, _, _⟩ <;> rfl
  | close => rfl

theorem serve_valid (h : q.Valid) (request : Request) :
    (q.serve request).2.Valid := by
  cases request with
  | put payload =>
      rw [serve]
      cases hput : q.put payload with
      | error e => exact h
      | ok next => exact put_valid h hput
  | putIfAbove payload guard =>
      rw [serve]
      rcases hput : q.putIfAbove payload guard with e | ⟨_ | _, next⟩
      · exact h
      · exact putIfAbove_valid h hput
      · exact putIfAbove_valid h hput
  | take =>
      rw [serve]
      rcases htake : q.take with _ | ⟨_ | _, next⟩
      · exact h
      · exact take_valid h htake
      · exact take_valid h htake
  | takeInto out =>
      rw [serve]
      rcases htake : q.takeInto out with _ | ⟨found, buffer, next⟩
      · exact h
      · exact takeInto_valid h htake
  | close => exact close_valid h

/-- A call whose payload does not get into the queue leaves the ring as it
was. -/
theorem serve_eq_self_of_isRefusal {request : Request}
    (hrefused : (q.serve request).1.isRefusal = true) :
    (q.serve request).2 = q := by
  cases request with
  | put payload => exact Answer.ofPut_eq_self_of_isRefusal hrefused
  | putIfAbove payload guard =>
      apply Answer.ofPutIfAbove_eq_self_of_isRefusal _ hrefused
      intro next hnext
      exact putIfAbove_discard hnext
  | take =>
      rw [serve, Answer.ofTake_isRefusal] at hrefused
      contradiction
  | takeInto out =>
      rw [serve, Answer.ofTakeInto_isRefusal] at hrefused
      contradiction
  | close => simp [serve, Answer.isRefusal] at hrefused

end Operations

/-! ### Any sequence of requests -/

theorem serveAll_toFifo {q : Ring} (h : q.Valid) (requests : List Request) :
    Prod.map id toFifo (q.serveAll requests) =
      q.toFifo.serveAll requests := by
  induction requests generalizing q with
  | nil => rfl
  | cons request rest ih =>
      have hnext := ih (serve_valid h request)
      have hserve := serve_toFifo h request
      simp only [serveAll, Fifo.serveAll, ← hserve, Prod.map_snd,
        Prod.map_fst, ← hnext, id_eq, Prod.map_apply]

theorem serveAll_valid {q : Ring} (h : q.Valid) (requests : List Request) :
    (q.serveAll requests).2.Valid := by
  induction requests generalizing q with
  | nil => exact h
  | cons request rest ih => exact ih (serve_valid h request)

/-- A new ring answers every sequence of requests as the plain list does, and
represents the list afterwards.  From there, a refused payload changes nothing
and the two ways of taking agree. -/
theorem serveAll_new_eq_fifo {capacity : Nat} (hcap : 0 < capacity)
    (requests : List Request) :
    ∃ start last answers items closed,
      Ring.new capacity = .ok start ∧
      start.serveAll requests = (answers, last) ∧
      (Fifo.new capacity).serveAll requests =
        (answers, ⟨capacity, items, closed⟩) ∧
      last.Represents ⟨capacity, items, closed⟩ ∧
      (∀ request, (last.serve request).1.isRefusal = true →
        (last.serve request).2 = last) ∧
      ∀ out, last.takeInto out =
        last.take.map fun result =>
          (result.1.isSome, result.1.getD out, result.2) := by
  have hnew := new_eq_ok hcap
  obtain ⟨hvalid, hcapacity, hcontents, hclosed⟩ := valid_of_new hnew
  generalize (⟨Array.replicate capacity [], 0, 0, 0, false⟩ : Ring) =
    start at hnew hvalid hcapacity hcontents hclosed
  have hfifo : start.toFifo = Fifo.new capacity := by
    rw [toFifo, hcapacity, hcontents, hclosed, Fifo.new]
  have hanswers := serveAll_toFifo hvalid requests
  rw [hfifo] at hanswers
  have hlast : (start.serveAll requests).2.capacity = capacity := by
    have hlist := (Fifo.new capacity).serveAll_capacity requests
    rw [← hanswers] at hlist
    exact hlist
  have hrepresents :=
    (serveAll_valid hvalid requests).represents_toFifo
  rw [toFifo, hlast] at hrepresents
  refine ⟨start, _, _, _, _, hnew, rfl, ?_, hrepresents,
    fun request => serve_eq_self_of_isRefusal, takeInto_eq_take _⟩
  rw [← hanswers, Prod.map, toFifo, hlast]
  rfl

/-- Two slots, once around the ring: a full queue, the guard band, a buffer
with content of its own, and a closed queue. -/
theorem serveAll_new_eq_fifo_two :
    0 < 2 ∧ ∃ start last,
      Ring.new 2 = .ok start ∧
      start.serveAll
          [.take, .put [1, 1, 1], .put [2], .put [3], .take,
            .putIfAbove [4] 1, .putIfAbove [5] 0, .takeInto [9, 9], .close,
            .put [6], .take, .takeInto [7]] =
        ([.wouldBlock, .accepted, .accepted, .refused (.queueFull 2 2),
          .taken [1, 1, 1], .discarded, .accepted, .takenInto true [2],
          .closed, .refused .queueClosed, .taken [5], .takenInto false [7]],
          last) ∧
      last.Represents ⟨2, [], true⟩ := by
  have hpos : 0 < 2 := by decide
  refine ⟨hpos, ?_⟩
  obtain ⟨start, last, answers, items, closed, hnew, hring, hlist,
      hrepresents, -, -⟩ :=
    serveAll_new_eq_fifo hpos
      [.take, .put [1, 1, 1], .put [2], .put [3], .take, .putIfAbove [4] 1,
        .putIfAbove [5] 0, .takeInto [9, 9], .close, .put [6], .take,
        .takeInto [7]]
  have heval := hlist.symm.trans (b := (Fifo.new 2).serveAll _)
    (c := ([.wouldBlock, .accepted, .accepted, .refused (.queueFull 2 2),
      .taken [1, 1, 1], .discarded, .accepted, .takenInto true [2], .closed,
      .refused .queueClosed, .taken [5], .takenInto false [7]], ⟨2, [], true⟩))
    (by decide)
  simp only [Prod.mk.injEq, Fifo.mk.injEq, true_and] at heval
  obtain ⟨rfl, rfl, rfl⟩ := heval
  exact ⟨start, last, hnew, hring, hrepresents⟩

end Ring

end Logline
