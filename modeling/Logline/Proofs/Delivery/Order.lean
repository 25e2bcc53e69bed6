import Logline.Proofs.Delivery.Tracking
/-!
A delivery handles the payloads that it has accepted one after the other, in
their order and each once.  `Faithful` is the invariant of its sessions.  Once
the queue is closed, the worker takes exactly the payloads that are left,
whatever else happens (`iterations_add_count`), and ends (`exists_run_ended`).
-/
namespace Logline.Delivery.Session

variable {σ : Type}

/-- The payload that the worker has taken and has still to ask the sink
about. -/
def held (s : Session σ) : List Bytes :=
  (s.delivery.worker.map Worker.held).getD []

/-- What has been asked of the sink for that payload. -/
def begun (ds : Downstream σ) (s : Session σ) : List Call :=
  (s.delivery.worker.map (Worker.begun ds)).getD []

/-- The loop of the worker is over, and its last flush done. -/
def IsEnded (s : Session σ) : Prop :=
  ∃ w, s.delivery.worker = some w ∧ w.phase = .ended

/-- How many iterations of the worker's loop an action begins: the worker
takes a payload, or not. -/
def begins (s : Session σ) (action : Action) : Nat :=
  match s.delivery.worker with
  | none => 0
  | some w =>
      if action = .work ∧ w.phase = .waiting ∧ s.queue.count ≠ 0 then 1 else 0

/-- How many iterations of the worker's loop begin in a run. -/
def iterations (ds : Downstream σ) (s : Session σ) : List Action → Nat
  | [] => 0
  | action :: rest =>
      s.begins action +
        match s.act ds action with
        | some next => next.iterations ds rest
        | none => 0

/-- The worker of a session, as it will start if it has not started. -/
def workerFrom (sink₀ : σ) (s : Session σ) : Worker σ :=
  s.delivery.worker.getD (.new sink₀)

@[simp] theorem workerFrom_withWorker (sink₀ : σ) (s : Session σ)
    (w : Worker σ) (x : Exchange) :
    (s.withWorker w x).workerFrom sink₀ = w := rfl

@[simp] theorem queue_withWorker (s : Session σ) (w : Worker σ)
    (x : Exchange) : (s.withWorker w x).queue = x.queue := rfl

/-- The worker has done these jobs as a whole, is on its way through the next
one, and leaves only when the queue is closed and drained. -/
structure Faithful (ds : Downstream σ) (sink₀ : σ) (jobs : List Job)
    (s : Session σ) : Prop where
  queue_valid : s.queue.Valid
  tracks : (s.workerFrom sink₀).Tracks ds sink₀ jobs s.accepted
    s.delivery.exchange
  pending : ∀ sink, s.delivery.pending = some sink →
    sink = sink₀ ∧ s.delivery.worker = none
  leaving : (s.workerFrom sink₀).isLeaving = true →
    s.queue.closed = true ∧ s.queue.count = 0
  calm : ds.Steady → ∀ p, (s.workerFrom sink₀).phase ≠ .crashed p

/-- The end of a stop leaves everything but a report and the handle of the
worker. -/
theorem join_eq (timeout : Duration) (d : Delivery σ) :
    ∃ joinable x, (d.join timeout).2 = { d with joinable, exchange := x } ∧
      x.queue = d.exchange.queue ∧ x.calls = d.exchange.calls := by
  rw [Delivery.join]
  split
  · exact ⟨d.joinable, d.exchange, rfl, rfl, rfl⟩
  · split
    · exact ⟨false, d.exchange, rfl, rfl, rfl⟩
    · exact ⟨false, d.exchange, rfl, rfl, rfl⟩
    · exact ⟨false, _, rfl, rfl, Exchange.calls_report _ _⟩
    · exact ⟨false, _, rfl, rfl, Exchange.calls_report _ _⟩

theorem start_exchange (d : Delivery σ) :
    d.start.1.exchange = d.exchange := by
  rw [Delivery.start]
  split
  · rfl
  · dsimp only
    split <;> rfl

section Actions

variable {ds : Downstream σ} {sink₀ : σ} {jobs : List Job}
  {s s' : Session σ}

theorem faithful_new {config : Config} {d : Delivery σ}
    (hnew : Delivery.new config sink₀ = .ok d) :
    (new d).Faithful ds sink₀ [] := by
  obtain ⟨queue, hqueue, rfl⟩ := eq_of_new hnew
  obtain ⟨hvalid, -, hcontents, -⟩ := Ring.valid_of_new hqueue
  refine ⟨hvalid, ?_, ?_, ?_, ?_⟩
  · apply Worker.tracks_of_free (Worker.free_of_held rfl)
    · exact hcontents.symm
    · rfl
  · intro sink hsink
    exact ⟨(Option.some.inj hsink).symm, rfl⟩
  · intro hleaving
    contradiction
  · intro _ p hcrashed
    contradiction

theorem Faithful.offer (h : s.Faithful ds sink₀ jobs) (payload : Bytes) :
    (s.offer payload).Faithful ds sink₀ jobs := by
  rw [Session.offer, Exchange.offer_eq]
  by_cases haccept : s.delivery.exchange.queue.closed = false ∧
      s.delivery.guardBand < s.delivery.exchange.queue.remaining
  · have hroom : s.queue.count < s.queue.capacity :=
      Ring.count_lt_of_lt_remaining haccept.2
    have hcontents := Ring.accept_contents payload h.queue_valid hroom
    rw [if_pos haccept]
    refine ⟨Ring.accept_valid payload h.queue_valid hroom, ?_, h.pending, ?_,
      h.calm⟩
    · refine ⟨?_, h.tracks.calls_eq, h.tracks.rest_eq⟩
      change s.accepted ++ [payload] = _ ++ (s.queue.accept payload).contents
      rw [hcontents, h.tracks.accepted_eq, List.append_assoc]
      rfl
    · intro hleaving
      have hclosed := (h.leaving hleaving).1
      rw [queue, haccept.1] at hclosed
      contradiction
  · rw [if_neg haccept]
    exact ⟨h.queue_valid, h.tracks, h.pending, h.leaving, h.calm⟩

theorem Faithful.count (h : s.Faithful ds sink₀ jobs) (accepted : Bool) :
    { s.withExchange (s.delivery.exchange.tally accepted) with
      producer := .idle }.Faithful ds sink₀ jobs where
  queue_valid := h.queue_valid
  tracks := ⟨h.tracks.accepted_eq, h.tracks.calls_eq, h.tracks.rest_eq⟩
  pending := h.pending
  leaving := h.leaving
  calm := h.calm

theorem Faithful.start (h : s.Faithful ds sink₀ jobs) :
    { s with delivery := s.delivery.start.1 }.Faithful ds sink₀ jobs := by
  rw [Delivery.start]
  cases hpending : s.delivery.pending with
  | none => exact h
  | some sink =>
      obtain ⟨rfl, hworker⟩ := h.pending sink hpending
      have hfrom : s.workerFrom sink = .new sink := by
        rw [workerFrom, hworker, Option.getD_none]
      have htracks := h.tracks
      have hleaving := h.leaving
      have hcalm := h.calm
      rw [hfrom] at htracks hleaving hcalm
      dsimp only
      split
      · refine ⟨h.queue_valid, ?_, ?_, ?_, ?_⟩
        · rw [← hfrom] at htracks
          exact htracks
        · intro other hother
          contradiction
        · exact h.leaving
        · exact h.calm
      · refine ⟨h.queue_valid, htracks, ?_, hleaving, hcalm⟩
        intro other hother
        contradiction

theorem Faithful.close (h : s.Faithful ds sink₀ jobs) (producer : Producer) :
    { s with delivery := s.delivery.close, producer }.Faithful ds sink₀
      jobs where
  queue_valid := Ring.close_valid h.queue_valid
  tracks := ⟨h.tracks.accepted_eq, h.tracks.calls_eq, h.tracks.rest_eq⟩
  pending := h.pending
  leaving hleaving := ⟨rfl, (h.leaving hleaving).2⟩
  calm := h.calm

theorem Faithful.join (h : s.Faithful ds sink₀ jobs) (timeout : Duration)
    (producer : Producer) :
    { s with delivery := (s.delivery.join timeout).2, producer }.Faithful ds
      sink₀ jobs := by
  obtain ⟨joinable, x, heq, hqueue, hcalls⟩ := join_eq timeout s.delivery
  rw [heq]
  have hvalid : x.queue.Valid := by
    rw [hqueue]
    exact h.queue_valid
  refine ⟨hvalid, ?_, h.pending, ?_, h.calm⟩
  · apply h.tracks.proceed [] rfl hqueue
    · rw [List.append_nil, hcalls]
    · rw [List.append_nil]
    · rfl
  · intro hleaving
    rw [queue, hqueue]
    exact h.leaving hleaving

theorem Faithful.work (h : s.Faithful ds sink₀ jobs)
    (hwork : s.work ds = some s') :
    ∃ new, s'.Faithful ds sink₀ (jobs ++ new) := by
  obtain ⟨w, w', x', hworker, hstep, rfl⟩ := work_eq_some hwork
  have hfrom : s.workerFrom sink₀ = w := by
    rw [workerFrom, hworker, Option.getD_some]
  have htracks := h.tracks
  have hleaving := h.leaving
  rw [hfrom] at htracks hleaving
  have hpending : ∀ sink, s.delivery.pending = some sink →
      sink = sink₀ ∧ some w' = none := by
    intro sink hsink
    rw [(h.pending sink hsink).2] at hworker
    contradiction
  obtain ⟨new, hnew⟩ := Worker.step_tracks h.queue_valid htracks hstep
  refine ⟨new, ?_⟩
  by_cases hw : w.phase = .waiting
  · rcases Worker.step_waiting_cases hw hstep with
      ⟨hcount, hphase, hqueue⟩ | ⟨hcount, hclosed, hphase, hqueue⟩
    · have hvalid : (s.withWorker w' x').queue.Valid := by
        rw [queue_withWorker, hqueue]
        exact Ring.advance_valid _ h.queue_valid hcount
      refine ⟨hvalid, hnew, hpending, ?_, ?_⟩
      · intro hleaves
        simp [Worker.isLeaving, hphase] at hleaves
      · intro _ p hcrashed
        simp [hphase] at hcrashed
    · have hqueue' : (s.withWorker w' x').queue = s.queue := hqueue
      refine ⟨hqueue' ▸ h.queue_valid, hnew, hpending, ?_, ?_⟩
      · intro _
        rw [hqueue']
        exact ⟨hclosed, hcount⟩
      · intro _ p hcrashed
        simp [hphase] at hcrashed
  · obtain ⟨hqueue, hleaves, hcalm⟩ := Worker.step_busy hw hstep
    have hqueue' : (s.withWorker w' x').queue = s.queue := hqueue
    refine ⟨hqueue' ▸ h.queue_valid, hnew, hpending, ?_, hcalm⟩
    intro hleaves'
    rw [hqueue']
    exact hleaving (hleaves hleaves')

/-- Whatever either party does next, the session stays faithful. -/
theorem act_faithful (h : s.Faithful ds sink₀ jobs) {action : Action}
    (hact : s.act ds action = some s') :
    ∃ new, s'.Faithful ds sink₀ (jobs ++ new) := by
  rcases act_cases hact with ⟨payload, rfl, -, rfl⟩ | ⟨accepted, rfl, -, rfl⟩ |
    ⟨rfl, -, rfl⟩ | ⟨rfl, -, rfl⟩ | ⟨timeout, rfl, -, rfl⟩ | ⟨rfl, hwork⟩
  · exact ⟨[], by simpa using h.offer payload⟩
  · exact ⟨[], by simpa using h.count accepted⟩
  · exact ⟨[], by simpa using h.start⟩
  · exact ⟨[], by simpa using h.close .stopping⟩
  · exact ⟨[], by simpa using h.join timeout .idle⟩
  · exact h.work hwork

theorem run_faithful {actions : List Action}
    (h : ∃ jobs, s.Faithful ds sink₀ jobs) (hrun : s.run ds actions = some s') :
    ∃ jobs, s'.Faithful ds sink₀ jobs := by
  apply run_induction _ hrun h
  rintro before after action hact ⟨jobs, hbefore⟩
  obtain ⟨new, hafter⟩ := act_faithful hbefore hact
  exact ⟨jobs ++ new, hafter⟩

theorem eq_of_act_start (hact : s.act ds .start = some s') :
    s.producer = .idle ∧ s' = { s with delivery := s.delivery.start.1 } := by
  simpa [act, eq_comm] using hact

/-- Actions but the start and the worker's steps leave the delivery alone, up to
what its parties share and the handle of the worker. -/
theorem act_frame {action : Action} (hact : s.act ds action = some s')
    (hstart : action ≠ .start) (hwork : action ≠ .work) :
    ∃ joinable x, s'.delivery =
      { s.delivery with joinable, exchange := x } := by
  rcases act_cases hact with ⟨payload, rfl, -, rfl⟩ | ⟨accepted, rfl, -, rfl⟩ |
    ⟨rfl, -⟩ | ⟨rfl, -, rfl⟩ | ⟨timeout, rfl, -, rfl⟩ | ⟨rfl, -⟩
  · rcases s.offer_cases payload with ⟨-, -, hoffer⟩ | hoffer
    · rw [hoffer]
      exact ⟨_, _, rfl⟩
    · rw [hoffer]
      exact ⟨_, _, rfl⟩
  · exact ⟨_, _, rfl⟩
  · contradiction
  · exact ⟨_, _, rfl⟩
  · obtain ⟨joinable, x, heq, -⟩ := join_eq timeout s.delivery
    exact ⟨joinable, x, heq⟩
  · contradiction

/-! ### The queue -/

/-- What an action makes of the queue and of the accepted payloads.  An offer
that leaves both alone has found no room. -/
theorem act_queue_cases {action : Action} (hact : s.act ds action = some s') :
    s'.queue = s.queue ∧ s'.accepted = s.accepted ∧
        (∀ payload, action = .offer payload → s.queue.closed = false →
          s.queue.remaining ≤ s.delivery.guardBand) ∨
      (∃ payload, action = .offer payload ∧ s.queue.closed = false ∧
        s.delivery.guardBand < s.queue.remaining ∧
        s'.queue = s.queue.accept payload ∧
        s'.accepted = s.accepted ++ [payload]) ∨
      (action = .close ∧ s'.queue = s.queue.close ∧ s'.accepted = s.accepted) ∨
      (∃ buffer : Bytes, action = .work ∧ s.queue.count ≠ 0 ∧
        s'.queue = s.queue.advance buffer.cleared ∧
        s'.accepted = s.accepted) := by
  rcases act_cases hact with ⟨payload, rfl, -, rfl⟩ | ⟨accepted, rfl, -, rfl⟩ |
    ⟨rfl, -, rfl⟩ | ⟨rfl, -, rfl⟩ | ⟨timeout, rfl, -, rfl⟩ | ⟨rfl, hwork⟩
  · rw [Session.offer, Exchange.offer_eq]
    by_cases hroom : s.delivery.exchange.queue.closed = false ∧
        s.delivery.guardBand < s.delivery.exchange.queue.remaining
    · rw [if_pos hroom]
      exact .inr (.inl ⟨payload, rfl, hroom.1, hroom.2, rfl, rfl⟩)
    · rw [if_neg hroom]
      refine .inl ⟨rfl, rfl, fun _ _ hopen => ?_⟩
      exact Nat.le_of_not_lt fun hfree => hroom ⟨hopen, hfree⟩
  · exact .inl ⟨rfl, rfl, fun _ h => by contradiction⟩
  · refine .inl ⟨?_, rfl, fun _ h => by contradiction⟩
    rw [queue, start_exchange, queue]
  · exact .inr (.inr (.inl ⟨rfl, rfl, rfl⟩))
  · obtain ⟨joinable, x, heq, hqueue, -⟩ := join_eq timeout s.delivery
    refine .inl ⟨?_, rfl, fun _ h => by contradiction⟩
    rw [heq, queue, hqueue, queue]
  · obtain ⟨w, w', x', hworker, hstep, rfl⟩ := work_eq_some hwork
    by_cases hw : w.phase = .waiting
    · rcases Worker.step_waiting_cases hw hstep with
        ⟨hcount, -, hqueue⟩ | ⟨-, -, -, hqueue⟩
      · exact .inr (.inr (.inr ⟨w.buffer, rfl, hcount, hqueue, rfl⟩))
      · exact .inl ⟨hqueue, rfl, fun _ h => by contradiction⟩
    · obtain ⟨hqueue, -, -⟩ := Worker.step_busy hw hstep
      exact .inl ⟨hqueue, rfl, fun _ h => by contradiction⟩

theorem act_queue_valid (hvalid : s.queue.Valid) {action : Action}
    (hact : s.act ds action = some s') : s'.queue.Valid := by
  rcases act_queue_cases hact with ⟨hqueue, -, -⟩ |
    ⟨payload, -, -, hroom, hqueue, -⟩ | ⟨-, hqueue, -⟩ |
    ⟨buffer, -, hcount, hqueue, -⟩
  all_goals rw [hqueue]
  · exact hvalid
  · exact Ring.accept_valid payload hvalid (Ring.count_lt_of_lt_remaining hroom)
  · exact Ring.close_valid hvalid
  · exact Ring.advance_valid buffer hvalid hcount

/-- Nobody but the worker asks anything of the sink or takes a payload from the
queue. -/
theorem act_calls_of_ne_work (hvalid : s.queue.Valid) {action : Action}
    (hact : s.act ds action = some s') (hne : action ≠ .work) :
    s'.calls = s.calls ∧
      ∃ new, s'.accepted = s.accepted ++ new ∧
        s'.queue.contents = s.queue.contents ++ new := by
  constructor
  · rcases act_cases hact with ⟨payload, rfl, -, rfl⟩ |
      ⟨accepted, rfl, -, rfl⟩ |
      ⟨rfl, -, rfl⟩ | ⟨rfl, -, rfl⟩ | ⟨timeout, rfl, -, rfl⟩ | ⟨rfl, -⟩
    · rcases s.offer_cases payload with ⟨-, -, hoffer⟩ | hoffer
      · rw [hoffer]
        rfl
      · rw [hoffer]
        rfl
    · rfl
    · rw [calls, start_exchange, calls]
    · rfl
    · obtain ⟨joinable, x, heq, -, hcalls⟩ := join_eq timeout s.delivery
      rw [heq]
      exact hcalls
    · contradiction
  · rcases act_queue_cases hact with ⟨hqueue, haccepted, -⟩ |
      ⟨payload, -, -, hroom, hqueue, haccepted⟩ | ⟨-, hqueue, haccepted⟩ |
      ⟨buffer, hwork, -⟩
    · refine ⟨[], ?_, ?_⟩
      · rw [haccepted, List.append_nil]
      · rw [hqueue, List.append_nil]
    · have hfree := Ring.count_lt_of_lt_remaining hroom
      refine ⟨[payload], haccepted, ?_⟩
      rw [hqueue, Ring.accept_contents payload hvalid hfree]
    · refine ⟨[], ?_, ?_⟩
      · rw [haccepted, List.append_nil]
      · rw [hqueue, List.append_nil]
        rfl
    · contradiction

/-! ### After the queue is closed -/

/-- Only the worker does anything to a closed queue. -/
theorem act_closed_of_ne_work (hclosed : s.queue.closed = true)
    {action : Action} (hact : s.act ds action = some s')
    (hne : action ≠ .work) :
    s'.queue = s.queue ∧ s'.accepted = s.accepted := by
  rcases act_cases hact with ⟨payload, rfl, -, rfl⟩ | ⟨accepted, rfl, -, rfl⟩ |
    ⟨rfl, -, rfl⟩ | ⟨rfl, -, rfl⟩ | ⟨timeout, rfl, -, rfl⟩ | ⟨rfl, -⟩
  · have hrefuse : ¬(s.delivery.exchange.queue.closed = false ∧
        s.delivery.guardBand < s.delivery.exchange.queue.remaining) := by
      intro hroom
      rw [queue, hroom.1] at hclosed
      contradiction
    rw [Session.offer, Exchange.offer_eq, if_neg hrefuse]
    exact ⟨rfl, rfl⟩
  · exact ⟨rfl, rfl⟩
  · refine ⟨?_, rfl⟩
    rw [queue, start_exchange, queue]
  · refine ⟨?_, rfl⟩
    exact Ring.close_of_closed hclosed
  · obtain ⟨joinable, x, heq, hqueue, -⟩ := join_eq timeout s.delivery
    refine ⟨?_, rfl⟩
    rw [heq, queue, hqueue, queue]
  · contradiction

/-- A closed queue stays closed and takes nothing; a payload leaves it exactly
when the worker begins an iteration. -/
theorem act_closed (hclosed : s.queue.closed = true) {action : Action}
    (hact : s.act ds action = some s') :
    s'.queue.closed = true ∧ s'.accepted = s.accepted ∧
      s.begins action + s'.queue.count = s.queue.count := by
  by_cases hne : action = .work
  · subst hne
    obtain ⟨w, w', x', hworker, hstep, rfl⟩ := work_eq_some hact
    rw [begins, hworker, queue_withWorker]
    by_cases hw : w.phase = .waiting
    · rcases Worker.step_waiting_cases hw hstep with
        ⟨hcount, -, hqueue⟩ | ⟨hcount, -, -, hqueue⟩
      · have hbegins : s.queue.count ≠ 0 := hcount
        rw [hqueue]
        refine ⟨hclosed, rfl, ?_⟩
        simp only [hw, hbegins, ne_eq, not_false_eq_true, and_self,
          ↓reduceIte, Ring.advance_count]
        exact Nat.add_sub_cancel' (Nat.one_le_iff_ne_zero.mpr hbegins)
      · have hbegins : s.queue.count = 0 := hcount
        rw [hqueue]
        refine ⟨hclosed, rfl, ?_⟩
        simp [hbegins, hcount]
    · obtain ⟨hqueue, -, -⟩ := Worker.step_busy hw hstep
      rw [hqueue]
      refine ⟨hclosed, rfl, ?_⟩
      simp [hw, queue]
  · have hbegins : s.begins action = 0 := by
      rw [begins]
      split
      · rfl
      · rw [if_neg fun h => hne h.1]
    obtain ⟨hqueue, haccepted⟩ := act_closed_of_ne_work hclosed hact hne
    rw [hqueue, hbegins, Nat.zero_add]
    exact ⟨hclosed, haccepted, rfl⟩

/-- From when the queue is closed, the iterations that begin are as many as
the payloads that leave it. -/
theorem iterations_add_count {more : List Action}
    (hclosed : s.queue.closed = true) (hrun : s.run ds more = some s') :
    s'.accepted = s.accepted ∧
      s.iterations ds more + s'.queue.count = s.queue.count := by
  induction more generalizing s with
  | nil =>
      rw [run, Option.some.injEq] at hrun
      subst hrun
      exact ⟨rfl, Nat.zero_add _⟩
  | cons action rest ih =>
      obtain ⟨next, hnext, hrest⟩ := Option.bind_eq_some_iff.mp hrun
      obtain ⟨hclosed', haccepted, hcount⟩ := act_closed hclosed hnext
      obtain ⟨haccepted', hcount'⟩ := ih hclosed' hrest
      refine ⟨haccepted'.trans haccepted, ?_⟩
      rw [iterations, hnext]
      dsimp only
      omega

/-- Left to itself, the worker of a closed queue comes to its end: there is
always a next step, and each leaves less to do. -/
theorem exists_run_ended (hsteady : ds.Steady)
    (h : ∃ jobs, s.Faithful ds sink₀ jobs) (hclosed : s.queue.closed = true)
    {w : Worker σ} (hworker : s.delivery.worker = some w) :
    ∃ n s', s.run ds (List.replicate n .work) = some s' ∧ s'.IsEnded := by
  induction heffort : w.effort s.delivery.exchange using
    Nat.strong_induction_on generalizing s w with
  | h effort ih =>
      by_cases hended : w.phase = .ended
      · exact ⟨0, s, rfl, w, hworker, hended⟩
      · have hcalm : ∀ p, w.phase ≠ .crashed p := by
          obtain ⟨jobs, hfaithful⟩ := h
          have hcalm := hfaithful.calm hsteady
          rw [workerFrom, hworker, Option.getD_some] at hcalm
          exact hcalm
        obtain ⟨⟨w', x'⟩, hstep⟩ : ∃ next,
            w.step ds s.delivery.exchange = some next :=
          Worker.exists_step hended hcalm hclosed
        have hact : s.act ds .work = some (s.withWorker w' x') := by
          simp [act, work, hworker, hstep]
        have hone : s.run ds [.work] = some (s.withWorker w' x') := by
          simp [run, hact]
        have hless := Worker.effort_step hstep
        obtain ⟨n, s', hrun, hs'⟩ := ih (w'.effort x') (heffort ▸ hless)
          (run_faithful h hone)
          (act_closed hclosed hact).1 rfl rfl
        refine ⟨n + 1, s', ?_, hs'⟩
        rw [List.replicate_succ, run, hact]
        exact hrun

theorem written_begun (ds : Downstream σ) (s : Session σ) :
    written (s.begun ds) = [] := by
  rw [begun]
  cases s.delivery.worker with
  | none => rfl
  | some w =>
      rw [Option.map_some, Option.getD_some, Worker.begun]
      split
      · exact ds.written_siftCalls _
      · rw [written_append, ds.written_siftCalls, ds.written_translateCalls]
        rfl
      · rfl

theorem Faithful.accepted_eq (h : s.Faithful ds sink₀ jobs) :
    s.accepted =
      jobs.filterMap Job.payload? ++ s.held ++ s.queue.contents := by
  have haccepted := h.tracks.accepted_eq
  rw [workerFrom] at haccepted
  rw [haccepted, held]
  cases s.delivery.worker <;> rfl

theorem Faithful.calls_eq (h : s.Faithful ds sink₀ jobs) :
    s.calls = (ds.performAll jobs sink₀).2 ++ s.begun ds := by
  have hcalls := h.tracks.calls_eq
  rw [workerFrom] at hcalls
  rw [calls, hcalls, begun]
  cases s.delivery.worker <;> rfl

theorem held_of_isEnded (hended : s.IsEnded) : s.held = [] := by
  obtain ⟨w, hworker, hphase⟩ := hended
  rw [held, hworker, Option.map_some, Option.getD_some, Worker.held, hphase]

/-- The worker ends only when there is nothing left and nothing to come. -/
theorem Faithful.drained (h : s.Faithful ds sink₀ jobs) (hended : s.IsEnded) :
    s.queue.closed = true ∧ s.queue.count = 0 := by
  obtain ⟨w, hworker, hphase⟩ := hended
  apply h.leaving
  rw [workerFrom, hworker, Option.getD_some, Worker.isLeaving, hphase]

/-- At its end the worker has finished with everything. -/
theorem Faithful.of_ended (h : s.Faithful ds sink₀ jobs) (hended : s.IsEnded) :
    s.queue.count = 0 ∧ jobs.filterMap Job.payload? = s.accepted := by
  have hcount := (h.drained hended).2
  refine ⟨hcount, ?_⟩
  rw [h.accepted_eq, held_of_isEnded hended,
    (Ring.contents_eq_nil_iff _).mpr hcount]
  simp

end Actions

/-- At every moment of every run, what has been asked of the sink is what the
payloads finished with ask for, in the order of their acceptance and each
once, and what has been asked for the payload in hand; the bytes written are
the images of the finished payloads.  Once the queue is closed, the worker
begins one more iteration for each payload left, and ends. -/
theorem run_delivers_in_order {ds : Downstream σ} (hsteady : ds.Steady)
    {config : Config} {sink : σ} {d : Delivery σ}
    (hnew : Delivery.new config sink = .ok d) {actions : List Action}
    {s : Session σ} (hrun : (new d).run ds actions = some s) :
    (∃ jobs : List Job,
      s.accepted =
        jobs.filterMap Job.payload? ++ s.held ++ s.queue.contents ∧
      s.calls = (ds.performAll jobs sink).2 ++ s.begun ds ∧
      written s.calls = ds.images jobs sink ∧
      (∀ image, (∀ payload sink, (ds.image payload sink).2 = image payload) →
        written s.calls =
          (jobs.filterMap Job.payload?).filterMap image) ∧
      (s.IsEnded → jobs.filterMap Job.payload? = s.accepted)) ∧
    (s.queue.closed = true →
      (∀ more s', s.run ds more = some s' →
        s'.accepted = s.accepted ∧
        s.iterations ds more + s'.queue.count = s.queue.count ∧
        (s'.IsEnded → s.iterations ds more = s.queue.count)) ∧
      (s.delivery.worker.isSome = true →
        ∃ n s', s.run ds (List.replicate n .work) = some s' ∧
          s'.IsEnded)) := by
  obtain ⟨jobs, hfaithful⟩ := run_faithful ⟨[], faithful_new hnew⟩ hrun
  have hwritten : written s.calls = ds.images jobs sink := by
    rw [hfaithful.calls_eq, written_append, written_begun, List.append_nil,
      Downstream.written_performAll]
  refine ⟨⟨jobs, hfaithful.accepted_eq, hfaithful.calls_eq, hwritten, ?_,
    fun hended => (hfaithful.of_ended hended).2⟩, fun hclosed => ⟨?_, ?_⟩⟩
  · intro image himage
    rw [hwritten, Downstream.images_eq_filterMap himage]
  · intro more s' hmore
    obtain ⟨haccepted, hcount⟩ := iterations_add_count hclosed hmore
    refine ⟨haccepted, hcount, ?_⟩
    intro hended
    obtain ⟨jobs', hfaithful'⟩ := run_faithful ⟨jobs, hfaithful⟩ hmore
    rw [← hcount, (hfaithful'.of_ended hended).1, Nat.add_zero]
  · intro hsome
    obtain ⟨w, hworker⟩ := Option.isSome_iff_exists.mp hsome
    exact exists_run_ended hsteady ⟨jobs, hfaithful⟩ hclosed hworker

namespace OrderWitness

/-- Drops what starts with `0`, fails at `1`, panics at `2`, and encodes the
rest; writing panics for `3` and fails for `4`. -/
def downstream : Downstream Unit where
  name := []
  filter := some fun sink payload => (sink, .ok (payload.head? == some 0))
  encode := some fun sink payload =>
    (sink,
      if payload = [1] then .failed .queueClosed
      else if payload = [2] then .panicked .other
      else .done (payload ++ [10]))
  write sink bytes :=
    (sink,
      if bytes = [3, 10] then .panicked .other
      else if bytes = [4, 10] then .failed .queueClosed
      else .done bytes.length)
  flush sink := (sink, .done ())

theorem downstream_steady : downstream.Steady where
  filter := by
    intro filter hfilter sink payload p hpanic
    rw [downstream, Option.some.injEq] at hfilter
    subst hfilter
    contradiction
  flush := by
    intro sink p hpanic
    contradiction

def delivery : Delivery Unit where
  guardBand := 1
  threadName := []
  exchange := .new ⟨Array.replicate 4 [], 0, 0, 0, false⟩
  pending := some ()
  worker := none
  joinable := false
  started := false

/-- The worker is at `1` when the queue closes behind `2` and `4`; `5` and `6`
find it nearly full, `7` finds it closed. -/
def actions : List Action :=
  [.offer [0], .count, .start, .work, .offer [3], .work, .count, .work, .work,
    .offer [1], .count, .offer [2], .work, .work, .count, .work, .work, .work,
    .work, .offer [4], .count, .offer [5], .count, .offer [6], .count, .close,
    .work, .join ⟨0, 1⟩, .offer [7], .count, .work]

theorem run_delivers_in_order_sample :
    downstream.Steady ∧ Delivery.new ⟨4, 1, []⟩ () = .ok delivery ∧
    ∃ s, (new delivery).run downstream actions = some s ∧
      (∃ jobs : List Job,
        jobs.filterMap Job.payload? ++ [[1]] ++ [[2], [4]] = s.accepted ∧
        s.calls = (downstream.performAll jobs ()).2 ++ [.filter [1]]) ∧
      written s.calls = [[3, 10]] ∧
      ∃ n s', s.run downstream (List.replicate n .work) = some s' ∧
        s'.IsEnded ∧ s.iterations downstream (List.replicate n .work) = 2 := by
  have hnew : Delivery.new ⟨4, 1, []⟩ () = .ok delivery := rfl
  have hsome : ((new delivery).run downstream actions).map
      (fun s => (s.held, s.queue.contents, s.begun downstream,
        written s.calls, s.queue.closed, s.queue.count,
        s.delivery.worker.isSome)) =
      some ([[1]], [[2], [4]], [.filter [1]], [[3, 10]], true, 2, true) := by
    rfl
  obtain ⟨s, hrun, hs⟩ := Option.map_eq_some_iff.mp hsome
  simp only [Prod.mk.injEq] at hs
  obtain ⟨hheld, hcontents, hbegun, hwritten, hclosed, hcount, hworker⟩ := hs
  obtain ⟨⟨jobs, haccepted, hcalls, -⟩, hafter⟩ :=
    run_delivers_in_order downstream_steady hnew hrun
  obtain ⟨hiterations, hends⟩ := hafter hclosed
  obtain ⟨n, s', hrun', hended⟩ := hends hworker
  refine ⟨downstream_steady, hnew, s, hrun, ⟨jobs, ?_, ?_⟩, hwritten, n, s',
    hrun', hended, ?_⟩
  · rw [haccepted, hheld, hcontents]
  · rw [hcalls, hbegun]
  · rw [(hiterations _ s' hrun').2.2 hended, hcount]

end OrderWitness

end Logline.Delivery.Session
