import Logline.Proofs.Delivery.Handling
import Logline.Proofs.Delivery.Session
import Logline.Proofs.Queue.Contents
/-!
The worker in the middle of a payload, against the jobs that it has done as a
whole. `Worker.Tracks` says that what has been asked of the sink so far, with
what is still to be asked for the payload in hand, is what those jobs ask for;
`step_tracks` keeps it through every step.
-/
namespace Logline.Delivery

variable {σ : Type}

/-- Neither the filter of a sink nor a flush of it ever panics. -/
structure Downstream.Steady (ds : Downstream σ) : Prop where
  filter : ∀ filter, ds.filter = some filter →
    ∀ sink payload p, (filter sink payload).2 ≠ .error p
  flush : ∀ sink p, (ds.flush sink).2 ≠ .panicked p

/-! ### What the worker has in its hands -/

namespace Worker

/-- The payload that the worker has taken and has still to ask the sink
about. -/
def held (w : Worker σ) : List Bytes :=
  match w.phase with
  | .filtering => [w.buffer]
  | .encoding => [w.buffer]
  | .writing _ => [w.buffer]
  | _ => []

/-- What has been asked of the sink for the payload in hand. -/
def begun (ds : Downstream σ) (w : Worker σ) : List Call :=
  match w.phase with
  | .encoding => ds.siftCalls w.buffer
  | .writing _ => ds.siftCalls w.buffer ++ ds.translateCalls w.buffer
  | _ => []

/-- What is still to be asked of it, and the sink after that. -/
def rest (ds : Downstream σ) (w : Worker σ) : σ × List Call :=
  match w.phase with
  | .filtering => ds.handle w.buffer w.sink
  | .encoding => ds.forward (some w.buffer) w.sink
  | .writing bytes => ds.deliver (some bytes) w.sink
  | _ => (w.sink, [])

/-- The worker has seen the end of the queue. -/
def isLeaving (w : Worker σ) : Bool :=
  match w.phase with
  | .closing => true
  | .reporting .lastFlush _ => true
  | .ended => true
  | _ => false

/-- The worker has done these jobs since the sink was in state `sink₀`, and
has the payload in its hands after them. -/
structure Tracks (ds : Downstream σ) (sink₀ : σ) (jobs : List Job)
    (accepted : List Bytes) (w : Worker σ) (x : Exchange) : Prop where
  accepted_eq :
    accepted = jobs.filterMap Job.payload? ++ w.held ++ x.queue.contents
  calls_eq : x.calls = (ds.performAll jobs sink₀).2 ++ w.begun ds
  rest_eq : ds.performAll (jobs ++ w.held.map Job.handle) sink₀ =
    ((w.rest ds).1, x.calls ++ (w.rest ds).2)

end Worker

namespace Exchange

@[simp] theorem calls_count (x : Exchange) (counter : Counter) :
    (x.count counter).calls = x.calls := rfl

@[simp] theorem queue_count (x : Exchange) (counter : Counter) :
    (x.count counter).queue = x.queue := rfl

@[simp] theorem calls_ask (x : Exchange) (call : Call) :
    (x.ask call).calls = x.calls ++ [call] := by
  simp [ask, calls, Note.call?]

@[simp] theorem queue_ask (x : Exchange) (call : Call) :
    (x.ask call).queue = x.queue := rfl

@[simp] theorem calls_report (x : Exchange) (message : Text) :
    (x.report message).calls = x.calls := by
  simp [report, calls, Note.call?]

@[simp] theorem queue_report (x : Exchange) (message : Text) :
    (x.report message).queue = x.queue := rfl

end Exchange

namespace Worker

/-- The worker has no payload in its hands. -/
structure Free (ds : Downstream σ) (w : Worker σ) : Prop where
  held_eq : w.held = []
  begun_eq : w.begun ds = []
  rest_eq : w.rest ds = (w.sink, [])

section Steps

variable {ds : Downstream σ} {sink₀ : σ} {jobs : List Job}
  {accepted : List Bytes} {w w' : Worker σ} {x x' : Exchange}

theorem free_of_held (hheld : w.held = []) : w.Free ds := by
  obtain ⟨phase, sink, buffer⟩ := w
  cases phase <;> simp_all [held] <;> exact ⟨rfl, rfl, rfl⟩

theorem Tracks.performAll_of_free (h : w.Tracks ds sink₀ jobs accepted x)
    (hfree : w.Free ds) : ds.performAll jobs sink₀ = (w.sink, x.calls) := by
  have hall := h.rest_eq
  rw [hfree.held_eq, hfree.rest_eq] at hall
  simpa using hall

/-- A worker without a payload tracks the jobs that led to its sink. -/
theorem tracks_of_free (hfree : w.Free ds)
    (haccepted : accepted = jobs.filterMap Job.payload? ++ x.queue.contents)
    (hall : ds.performAll jobs sink₀ = (w.sink, x.calls)) :
    w.Tracks ds sink₀ jobs accepted x where
  accepted_eq := by rw [hfree.held_eq, List.append_nil, haccepted]
  calls_eq := by rw [hfree.begun_eq, List.append_nil, hall]
  rest_eq := by simp [hfree.held_eq, hfree.rest_eq, hall]

/-! ### What a step does -/

theorem stepFiltering_cases (hstep : stepFiltering ds w x = (w', x')) :
    x'.queue = x.queue ∧ x'.calls = x.calls ++ ds.siftCalls w.buffer ∧
      w'.buffer = w.buffer ∧
      (ds.sift w.buffer w.sink = (w'.sink, some w.buffer) ∧
          w'.phase = .encoding ∨
        ds.sift w.buffer w.sink = (w'.sink, none) ∧
          (w'.phase = .counting .filtered ∨
            ¬ ds.Steady ∧ ∃ p, w'.phase = .crashed p)) := by
  rw [stepFiltering] at hstep
  rw [Downstream.sift, Downstream.siftCalls]
  cases hfilter : ds.filter with
  | none =>
      simp only [hfilter, Prod.mk.injEq] at hstep
      obtain ⟨rfl, rfl⟩ := hstep
      simp
  | some filter =>
      rcases hanswer : filter w.sink w.buffer with ⟨sink, p | ⟨_ | _⟩⟩
      all_goals
        simp only [hfilter, hanswer, Prod.mk.injEq] at hstep
        obtain ⟨rfl, rfl⟩ := hstep
      · have hwild : ¬ ds.Steady := fun hsteady =>
          hsteady.filter filter hfilter w.sink w.buffer p
            (congrArg Prod.snd hanswer)
        simp [hanswer, hwild]
      · simp [hanswer]
      · simp [hanswer]

theorem stepEncoding_cases (hstep : stepEncoding ds w x = (w', x')) :
    x'.queue = x.queue ∧ x'.calls = x.calls ++ ds.translateCalls w.buffer ∧
      w'.buffer = w.buffer ∧
      ((∃ bytes, ds.translate w.buffer w.sink = (w'.sink, some bytes) ∧
          w'.phase = .writing bytes) ∨
        ds.translate w.buffer w.sink = (w'.sink, none) ∧
          ∃ message, w'.phase = .reporting .encode message) := by
  rw [stepEncoding] at hstep
  rw [Downstream.translate, Downstream.translateCalls]
  cases hencode : ds.encode with
  | none =>
      simp only [hencode, Prod.mk.injEq] at hstep
      obtain ⟨rfl, rfl⟩ := hstep
      simp
  | some encode =>
      rcases hanswer : encode w.sink w.buffer with ⟨sink, bytes | e | p⟩
      all_goals
        simp only [hencode, hanswer, Prod.mk.injEq] at hstep
        obtain ⟨rfl, rfl⟩ := hstep
        simp [hanswer]

theorem stepWriting_cases {bytes : Bytes}
    (hstep : stepWriting ds bytes w x = (w', x')) :
    x'.queue = x.queue ∧ x'.calls = x.calls ++ [.write bytes] ∧
      w'.sink = (ds.write w.sink bytes).1 ∧
      (w'.phase = .counting .delivered ∨
        ∃ message, w'.phase = .reporting .write message) := by
  rw [stepWriting] at hstep
  rcases hanswer : ds.write w.sink bytes with ⟨sink, n | e | p⟩
  all_goals
    simp only [hanswer, Prod.mk.injEq] at hstep
    obtain ⟨rfl, rfl⟩ := hstep
    simp

theorem stepFlush_cases {failure : Failure}
    (hstep : stepFlush ds failure w x = (w', x')) :
    x'.queue = x.queue ∧ x'.calls = x.calls ++ [.flush] ∧
      w'.sink = (ds.flush w.sink).1 ∧
      (w'.phase = failure.next ∨
        (∃ message, w'.phase = .reporting failure message) ∨
        ¬ ds.Steady ∧ ∃ p, w'.phase = .crashed p) := by
  rw [stepFlush] at hstep
  rcases hanswer : ds.flush w.sink with ⟨sink, ⟨⟩ | e | p⟩
  all_goals
    simp only [hanswer, Prod.mk.injEq] at hstep
    obtain ⟨rfl, rfl⟩ := hstep
  · simp
  · simp
  · have hwild : ¬ ds.Steady := fun hsteady =>
      hsteady.flush w.sink p (congrArg Prod.snd hanswer)
    simp [hwild]

/-! ### One step -/

/-- A step within a payload, or between payloads without any job. -/
theorem Tracks.proceed (h : w.Tracks ds sink₀ jobs accepted x)
    (asked : List Call) (hheld : w'.held = w.held)
    (hqueue : x'.queue = x.queue) (hcalls : x'.calls = x.calls ++ asked)
    (hbegun : w'.begun ds = w.begun ds ++ asked)
    (hrest : w.rest ds = ((w'.rest ds).1, asked ++ (w'.rest ds).2)) :
    w'.Tracks ds sink₀ jobs accepted x' where
  accepted_eq := by rw [hheld, hqueue, ← h.accepted_eq]
  calls_eq := by rw [hcalls, hbegun, h.calls_eq, List.append_assoc]
  rest_eq := by rw [hheld, h.rest_eq, hrest, hcalls, List.append_assoc]

/-- The step that finishes with the payload in hand. -/
theorem Tracks.finish (h : w.Tracks ds sink₀ jobs accepted x)
    (asked : List Call) (hheld : w.held = [w.buffer]) (hheld' : w'.held = [])
    (hqueue : x'.queue = x.queue) (hcalls : x'.calls = x.calls ++ asked)
    (hrest : w.rest ds = (w'.sink, asked)) :
    w'.Tracks ds sink₀ (jobs ++ [.handle w.buffer]) accepted x' := by
  apply tracks_of_free (free_of_held hheld')
  · rw [h.accepted_eq, hheld, hqueue]
    simp [Job.payload?]
  · have hall := h.rest_eq
    rw [hheld, hrest, ← hcalls] at hall
    exact hall

/-- The step that takes a payload. -/
theorem Tracks.take (h : w.Tracks ds sink₀ jobs accepted x)
    (hheld : w.held = []) {payload : Bytes}
    (hqueue : x.queue.contents = payload :: x'.queue.contents)
    (hcalls : x'.calls = x.calls) :
    ({ w with phase := .filtering, buffer := payload } : Worker σ).Tracks ds
      sink₀ jobs accepted x' := by
  have hfree : w.Free ds := free_of_held hheld
  have hall := h.performAll_of_free hfree
  refine ⟨?_, ?_, ?_⟩
  · rw [h.accepted_eq, hheld, hqueue]
    simp [held]
  · rw [hcalls, h.calls_eq, hfree.begun_eq]
    rfl
  · simp only [held, List.map_cons, List.map_nil, rest,
      Downstream.performAll_snoc, Downstream.perform]
    rw [hall, hcalls]

/-- A flush is a job of its own, between payloads. -/
theorem Tracks.flush (h : w.Tracks ds sink₀ jobs accepted x)
    (hheld : w.held = []) (hheld' : w'.held = [])
    (hsink : w'.sink = (ds.flush w.sink).1) (hqueue : x'.queue = x.queue)
    (hcalls : x'.calls = x.calls ++ [.flush]) :
    w'.Tracks ds sink₀ (jobs ++ [.flush]) accepted x' := by
  apply tracks_of_free (free_of_held hheld')
  · rw [h.accepted_eq, hheld, hqueue]
    simp [Job.payload?]
  · rw [Downstream.performAll_snoc, Downstream.perform,
      h.performAll_of_free (free_of_held hheld), hsink, hcalls]

theorem stepWaiting_tracks (hw : w.phase = .waiting)
    (hvalid : x.queue.Valid) (h : w.Tracks ds sink₀ jobs accepted x)
    (hstep : w.stepWaiting x = some (w', x')) :
    w'.Tracks ds sink₀ jobs accepted x' := by
  have hheld : w.held = [] := by rw [held, hw]
  rw [stepWaiting, Ring.takeInto] at hstep
  by_cases hcount : x.queue.count = 0
  · cases hclosed : x.queue.closed with
    | false => simp [hcount, hclosed] at hstep
    | true =>
        simp only [hcount, hclosed, ↓reduceIte, Option.some.injEq,
          Prod.mk.injEq] at hstep
        obtain ⟨rfl, rfl⟩ := hstep
        apply h.proceed [] <;> simp [held, begun, rest, hw]
  · simp only [hcount, ↓reduceIte, Option.some.injEq, Prod.mk.injEq] at hstep
    obtain ⟨rfl, rfl⟩ := hstep
    exact h.take hheld (Ring.contents_eq_front_cons _ hvalid hcount) rfl

theorem stepFiltering_tracks (hw : w.phase = .filtering)
    (h : w.Tracks ds sink₀ jobs accepted x)
    (hstep : stepFiltering ds w x = (w', x')) :
    ∃ new, w'.Tracks ds sink₀ (jobs ++ new) accepted x' := by
  have hheld : w.held = [w.buffer] := by rw [held, hw]
  have hrest : w.rest ds = ds.handle w.buffer w.sink := by rw [rest, hw]
  obtain ⟨hqueue, hcalls, hbuffer, ⟨hsift, hphase⟩ | ⟨hsift, hphase⟩⟩ :=
    stepFiltering_cases hstep
  · refine ⟨[], ?_⟩
    rw [List.append_nil]
    apply h.proceed _ _ hqueue hcalls
    · simp [begun, hw, hphase, hbuffer]
    · rw [hrest, rest, hphase, hbuffer, Downstream.handle, hsift]
    · rw [hheld, held, hphase, hbuffer]
  · refine ⟨[.handle w.buffer], ?_⟩
    apply h.finish _ hheld _ hqueue hcalls
    · simp [hrest, Downstream.handle, hsift, Downstream.forward]
    · rcases hphase with hphase | ⟨-, p, hphase⟩
      · rw [held, hphase]
      · rw [held, hphase]

theorem stepEncoding_tracks (hw : w.phase = .encoding)
    (h : w.Tracks ds sink₀ jobs accepted x)
    (hstep : stepEncoding ds w x = (w', x')) :
    ∃ new, w'.Tracks ds sink₀ (jobs ++ new) accepted x' := by
  have hheld : w.held = [w.buffer] := by rw [held, hw]
  have hrest : w.rest ds = ds.forward (some w.buffer) w.sink := by
    rw [rest, hw]
  obtain ⟨hqueue, hcalls, hbuffer,
      ⟨bytes, htranslate, hphase⟩ | ⟨htranslate, message, hphase⟩⟩ :=
    stepEncoding_cases hstep
  · refine ⟨[], ?_⟩
    rw [List.append_nil]
    apply h.proceed _ _ hqueue hcalls
    · simp [begun, hw, hphase, hbuffer]
    · rw [hrest, rest, hphase]
      simp [Downstream.forward, htranslate]
    · rw [hheld, held, hphase, hbuffer]
  · refine ⟨[.handle w.buffer], ?_⟩
    apply h.finish _ hheld _ hqueue hcalls
    · simp [hrest, Downstream.forward, htranslate, Downstream.deliver]
    · rw [held, hphase]

theorem stepWriting_tracks {bytes : Bytes} (hw : w.phase = .writing bytes)
    (h : w.Tracks ds sink₀ jobs accepted x)
    (hstep : stepWriting ds bytes w x = (w', x')) :
    w'.Tracks ds sink₀ (jobs ++ [.handle w.buffer]) accepted x' := by
  have hheld : w.held = [w.buffer] := by rw [held, hw]
  obtain ⟨hqueue, hcalls, hsink, hphase⟩ := stepWriting_cases hstep
  apply h.finish _ hheld _ hqueue hcalls
  · rw [rest, hw, hsink]
    rfl
  · rcases hphase with hphase | ⟨message, hphase⟩
    · rw [held, hphase]
    · rw [held, hphase]

/-- Behind a report the worker has nothing more to ask about the payload. -/
theorem held_of_failure_next {failure : Failure}
    (hphase : w.phase = failure.next) : w.held = [] := by
  rw [held, hphase]
  cases failure <;> rfl

theorem held_of_fate_next {fate : Fate} (hphase : w.phase = fate.next) :
    w.held = [] := by
  rw [held, hphase]
  cases fate <;> rfl

theorem stepFlush_tracks {failure : Failure} (hheld : w.held = [])
    (h : w.Tracks ds sink₀ jobs accepted x)
    (hstep : stepFlush ds failure w x = (w', x')) :
    w'.Tracks ds sink₀ (jobs ++ [.flush]) accepted x' := by
  obtain ⟨hqueue, hcalls, hsink, hphase⟩ := stepFlush_cases hstep
  apply h.flush hheld _ hsink hqueue hcalls
  rcases hphase with hphase | ⟨message, hphase⟩ | ⟨-, p, hphase⟩
  · exact held_of_failure_next hphase
  · rw [held, hphase]
  · rw [held, hphase]

/-- A step without a payload that asks nothing of the sink. -/
theorem Tracks.idle (h : w.Tracks ds sink₀ jobs accepted x)
    (hheld : w.held = []) (hheld' : w'.held = []) (hsink : w'.sink = w.sink)
    (hqueue : x'.queue = x.queue) (hcalls : x'.calls = x.calls) :
    w'.Tracks ds sink₀ jobs accepted x' := by
  apply tracks_of_free (free_of_held hheld')
  · rw [h.accepted_eq, hheld, hqueue, List.append_nil]
  · rw [h.performAll_of_free (free_of_held hheld), hsink, hcalls]

/-- Every step of the worker keeps it on its way through the jobs. -/
theorem step_tracks (hvalid : x.queue.Valid)
    (h : w.Tracks ds sink₀ jobs accepted x)
    (hstep : w.step ds x = some (w', x')) :
    ∃ new, w'.Tracks ds sink₀ (jobs ++ new) accepted x' := by
  rw [step] at hstep
  cases hw : w.phase with
  | waiting =>
      rw [hw] at hstep
      refine ⟨[], ?_⟩
      rw [List.append_nil]
      exact stepWaiting_tracks hw hvalid h hstep
  | filtering =>
      simp only [hw, Option.some.injEq] at hstep
      exact stepFiltering_tracks hw h hstep
  | encoding =>
      simp only [hw, Option.some.injEq] at hstep
      exact stepEncoding_tracks hw h hstep
  | writing bytes =>
      simp only [hw, Option.some.injEq] at hstep
      exact ⟨_, stepWriting_tracks hw h hstep⟩
  | reporting failure message =>
      simp only [hw, Option.some.injEq, Prod.mk.injEq] at hstep
      obtain ⟨rfl, rfl⟩ := hstep
      refine ⟨[], ?_⟩
      rw [List.append_nil]
      exact h.idle (by rw [held, hw]) (held_of_failure_next rfl) rfl rfl
        (Exchange.calls_report x message)
  | counting fate =>
      simp only [hw, Option.some.injEq, Prod.mk.injEq] at hstep
      obtain ⟨rfl, rfl⟩ := hstep
      refine ⟨[], ?_⟩
      rw [List.append_nil]
      exact h.idle (by rw [held, hw]) (held_of_fate_next rfl) rfl rfl rfl
  | checking =>
      simp only [hw, Option.some.injEq, Prod.mk.injEq] at hstep
      obtain ⟨rfl, rfl⟩ := hstep
      refine ⟨[], ?_⟩
      rw [List.append_nil]
      have hheld : w.held = [] := by rw [held, hw]
      cases hempty : x.queue.isEmpty
      · exact h.idle hheld rfl rfl rfl rfl
      · exact h.idle hheld rfl rfl rfl rfl
  | flushing =>
      simp only [hw, Option.some.injEq] at hstep
      exact ⟨_, stepFlush_tracks (by rw [held, hw]) h hstep⟩
  | closing =>
      simp only [hw, Option.some.injEq] at hstep
      exact ⟨_, stepFlush_tracks (by rw [held, hw]) h hstep⟩
  | ended => simp [hw] at hstep
  | crashed p => simp [hw] at hstep

/-! ### The queue, and the end -/

/-- Only a waiting worker touches the queue or sees its end, and no step
crashes if neither the filter nor a flush panics. -/
theorem step_busy (hw : w.phase ≠ .waiting)
    (hstep : w.step ds x = some (w', x')) :
    x'.queue = x.queue ∧ (w'.isLeaving = true → w.isLeaving = true) ∧
      (ds.Steady → ∀ p, w'.phase ≠ .crashed p) := by
  rw [step] at hstep
  cases hbefore : w.phase with
  | waiting => exact absurd hbefore hw
  | filtering =>
      simp only [hbefore, Option.some.injEq] at hstep
      obtain ⟨hqueue, -, -,
          ⟨-, hphase⟩ | ⟨-, hphase | ⟨hwild, p, hphase⟩⟩⟩ :=
        stepFiltering_cases hstep
      · exact ⟨hqueue, by simp [isLeaving, hphase], by simp [hphase]⟩
      · exact ⟨hqueue, by simp [isLeaving, hphase], by simp [hphase]⟩
      · exact ⟨hqueue, by simp [isLeaving, hphase], by simp [hwild]⟩
  | encoding =>
      simp only [hbefore, Option.some.injEq] at hstep
      obtain ⟨hqueue, -, -, ⟨bytes, -, hphase⟩ | ⟨-, message, hphase⟩⟩ :=
        stepEncoding_cases hstep
      · exact ⟨hqueue, by simp [isLeaving, hphase], by simp [hphase]⟩
      · exact ⟨hqueue, by simp [isLeaving, hphase], by simp [hphase]⟩
  | writing bytes =>
      simp only [hbefore, Option.some.injEq] at hstep
      obtain ⟨hqueue, -, -, hphase | ⟨message, hphase⟩⟩ :=
        stepWriting_cases hstep
      · exact ⟨hqueue, by simp [isLeaving, hphase], by simp [hphase]⟩
      · exact ⟨hqueue, by simp [isLeaving, hphase], by simp [hphase]⟩
  | reporting failure message =>
      simp only [hbefore, Option.some.injEq, Prod.mk.injEq] at hstep
      obtain ⟨rfl, rfl⟩ := hstep
      cases failure <;> simp [isLeaving, Failure.next, hbefore]
  | counting fate =>
      simp only [hbefore, Option.some.injEq, Prod.mk.injEq] at hstep
      obtain ⟨rfl, rfl⟩ := hstep
      cases fate <;> simp [isLeaving, Fate.next]
  | checking =>
      simp only [hbefore, Option.some.injEq, Prod.mk.injEq] at hstep
      obtain ⟨rfl, rfl⟩ := hstep
      cases hempty : x.queue.isEmpty <;> simp [isLeaving]
  | flushing =>
      simp only [hbefore, Option.some.injEq] at hstep
      obtain ⟨hqueue, -, -,
          hphase | ⟨message, hphase⟩ | ⟨hwild, p, hphase⟩⟩ :=
        stepFlush_cases hstep
      · rw [Failure.next] at hphase
        exact ⟨hqueue, by simp [isLeaving, hphase], by simp [hphase]⟩
      · exact ⟨hqueue, by simp [isLeaving, hphase], by simp [hphase]⟩
      · exact ⟨hqueue, by simp [isLeaving, hphase], by simp [hwild]⟩
  | closing =>
      simp only [hbefore, Option.some.injEq] at hstep
      have hleaves : w.isLeaving = true := by rw [isLeaving, hbefore]
      obtain ⟨hqueue, -, -,
          hphase | ⟨message, hphase⟩ | ⟨hwild, p, hphase⟩⟩ :=
        stepFlush_cases hstep
      · exact ⟨hqueue, fun _ => hleaves, by simp [hphase, Failure.next]⟩
      · exact ⟨hqueue, fun _ => hleaves, by simp [hphase]⟩
      · exact ⟨hqueue, fun _ => hleaves, by simp [hwild]⟩
  | ended => simp [hbefore] at hstep
  | crashed p => simp [hbefore] at hstep

/-- A waiting worker takes the oldest payload, or sees the end of the queue. -/
theorem step_waiting_cases (hw : w.phase = .waiting)
    (hstep : w.step ds x = some (w', x')) :
    x.queue.count ≠ 0 ∧ w'.phase = .filtering ∧
        x'.queue = x.queue.advance w.buffer.cleared ∨
      x.queue.count = 0 ∧ x.queue.closed = true ∧ w'.phase = .closing ∧
        x'.queue = x.queue := by
  rw [step, hw] at hstep
  simp only [stepWaiting, Ring.takeInto] at hstep
  by_cases hcount : x.queue.count = 0
  · cases hclosed : x.queue.closed with
    | false => simp [hcount, hclosed] at hstep
    | true =>
        simp only [hcount, hclosed, ↓reduceIte, Option.some.injEq,
          Prod.mk.injEq] at hstep
        obtain ⟨rfl, rfl⟩ := hstep
        exact Or.inr ⟨hcount, rfl, rfl, rfl⟩
  · simp only [hcount, ↓reduceIte, Option.some.injEq, Prod.mk.injEq] at hstep
    obtain ⟨rfl, rfl⟩ := hstep
    exact Or.inl ⟨hcount, rfl, rfl⟩

/-- Once the queue is closed, a worker that is not over has something to
do. -/
theorem exists_step (hended : w.phase ≠ .ended)
    (hcalm : ∀ p, w.phase ≠ .crashed p) (hclosed : x.queue.closed = true) :
    ∃ next, w.step ds x = some next := by
  rw [step]
  cases hphase : w.phase with
  | waiting =>
      rw [stepWaiting, Ring.takeInto, hclosed]
      by_cases hcount : x.queue.count = 0
      · exact ⟨_, by simp only [hcount, ↓reduceIte]; rfl⟩
      · exact ⟨_, by simp only [hcount, ↓reduceIte]; rfl⟩
  | ended => exact absurd hphase hended
  | crashed p => exact absurd hphase (hcalm p)
  | _ => exact ⟨_, rfl⟩

end Steps

end Worker

end Logline.Delivery
