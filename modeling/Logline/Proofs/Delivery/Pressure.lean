import Logline.Proofs.Delivery.Order
/-!
How a delivery discards.  A write puts its payload into the queue exactly if
the queue is open and would not run into the guard band by it, and never fails
(`run_write_pressure`).  So as many slots as the band has stay free, the queue
is never full to a write, and the slots beyond the band go to the payloads that
come first.
-/
namespace Logline.Delivery

variable {σ : Type}

/-- A configuration is accepted if it leaves a slot beyond the guard band. -/
theorem Config.validate_eq_ok_iff (config : Config) :
    config.validate = .ok () ↔ config.guardBand < config.capacity := by
  rw [validate]
  split_ifs with hzero hband
  · simp [hzero]
  · simpa using hband
  · simpa using hband

/-- With an accepted configuration a delivery can be made. -/
theorem exists_new {config : Config} (hvalid : config.validate = .ok ())
    (sink : σ) :
    ∃ d, Delivery.new config sink = .ok d := by
  have hcap : 0 < config.capacity :=
    Nat.zero_lt_of_lt (config.validate_eq_ok_iff.mp hvalid)
  rw [Delivery.new, hvalid, Ring.new_eq_ok hcap]
  exact ⟨_, rfl⟩

/-- With a free slot beyond the guard band a queue is not full. -/
theorem putIfAbove_ne_queueFull (q : Ring) (payload : Bytes)
    (guardBand count capacity : Nat) :
    q.putIfAbove payload guardBand ≠ .error (.queueFull count capacity) := by
  rw [Ring.putIfAbove]
  split_ifs with hband
  · simp
  · have hfree := Ring.count_lt_of_lt_remaining (Nat.lt_of_not_le hband)
    rw [Ring.put, if_neg (Nat.ne_of_lt hfree)]
    cases q.closed <;> simp [Except.map]

/-- What a write does, and that it never fails. -/
theorem write_eq (payload : Bytes) (d : Delivery σ) :
    d.write payload =
      if d.exchange.queue.closed = false ∧
        d.guardBand < d.exchange.queue.remaining then
        .ok (payload.length,
          { d with exchange :=
            { d.exchange with
              queue := d.exchange.queue.accept payload
              metrics := d.exchange.metrics.record .enqueued } })
      else
        .ok (0,
          { d with exchange :=
            { d.exchange with metrics := d.exchange.metrics.record .dropped }
              }) := by
  rw [Delivery.write, Exchange.offer_eq]
  split_ifs <;> rfl

/-- The payload that an action offers. -/
def Action.payload? : Action → Option Bytes
  | .offer payload => some payload
  | _ => none

namespace Session

section Actions

variable {ds : Downstream σ} {config : Config} {sink₀ : σ} {s s' : Session σ}

/-! ### The guard band -/

/-- The slots of the guard band are free. -/
structure Banded (config : Config) (s : Session σ) : Prop where
  guardBand_eq : s.delivery.guardBand = config.guardBand
  capacity_eq : s.queue.capacity = config.capacity
  count_le : s.queue.count + config.guardBand ≤ config.capacity

theorem act_guardBand {action : Action} (hact : s.act ds action = some s') :
    s'.delivery.guardBand = s.delivery.guardBand := by
  by_cases hstart : action = .start
  · subst hstart
    obtain ⟨-, rfl⟩ := eq_of_act_start hact
    rw [Delivery.start]
    split
    · rfl
    · dsimp only
      split <;> rfl
  · by_cases hwork : action = .work
    · subst hwork
      obtain ⟨w, w', x', -, -, rfl⟩ := work_eq_some hact
      rfl
    · obtain ⟨joinable, x, hframe⟩ := act_frame hact hstart hwork
      rw [hframe]

theorem act_banded (h : s.Banded config) {action : Action}
    (hact : s.act ds action = some s') : s'.Banded config := by
  obtain ⟨hguard, hcapacity, hcount⟩ := h
  have hguard' := (act_guardBand hact).trans hguard
  rcases act_queue_cases hact with ⟨hqueue, -, -⟩ |
    ⟨payload, -, -, hroom, hqueue, -⟩ | ⟨-, hqueue, -⟩ |
    ⟨buffer, -, -, hqueue, -⟩
  · rw [← hqueue] at hcapacity hcount
    exact ⟨hguard', hcapacity, hcount⟩
  · refine ⟨hguard', ?_, ?_⟩
    · rw [hqueue, Ring.accept_capacity, hcapacity]
    · rw [hguard, Ring.remaining, hcapacity] at hroom
      rw [hqueue, Ring.accept_count]
      omega
  · refine ⟨hguard', ?_, ?_⟩
    · rw [hqueue]
      exact hcapacity
    · rw [hqueue]
      exact hcount
  · refine ⟨hguard', ?_, ?_⟩
    · rw [hqueue, Ring.advance_capacity, hcapacity]
    · rw [hqueue, Ring.advance_count]
      omega

theorem banded_new {d : Delivery σ} (hvalid : config.validate = .ok ())
    (hnew : Delivery.new config sink₀ = .ok d) : (new d).Banded config := by
  have hband := config.validate_eq_ok_iff.mp hvalid
  obtain ⟨queue, hqueue, rfl⟩ := eq_of_new hnew
  obtain ⟨-, hcapacity, hcontents, -⟩ := Ring.valid_of_new hqueue
  refine ⟨rfl, hcapacity, ?_⟩
  change queue.count + _ ≤ _
  rw [(Ring.contents_eq_nil_iff queue).mp hcontents, Nat.zero_add]
  exact Nat.le_of_lt hband

theorem Banded.guardBand_le (h : s.Banded config) :
    config.guardBand ≤ s.queue.remaining := by
  rw [Ring.remaining, h.capacity_eq]
  exact Nat.le_sub_of_add_le' h.count_le

/-- There is room exactly if fewer payloads are queued than slots lie beyond
the guard band. -/
theorem Banded.room_iff (h : s.Banded config) :
    s.delivery.guardBand < s.queue.remaining ↔
      s.queue.count < config.capacity - config.guardBand := by
  have hcount := h.count_le
  rw [h.guardBand_eq, Ring.remaining, h.capacity_eq]
  omega

/-! ### Writes that nobody drains -/

/-- A queue that is open now has always been. -/
theorem open_of_run {more : List Action} (hrun : s.run ds more = some s')
    (hopen : s'.queue.closed = false) : s.queue.closed = false := by
  by_contra hclosed
  have hclosed' : s'.queue.closed = true :=
    run_induction (P := fun s => s.queue.closed = true)
      (fun _ _ _ hact hclosed => (act_closed hclosed hact).1) hrun
      (Bool.eq_true_of_not_eq_false hclosed)
  rw [hopen] at hclosed'
  contradiction

/-- An action of the producer on a queue that is open, and open after it: the
payload that it offers is accepted if there is room. -/
theorem act_accepted (h : s.Banded config) {action : Action}
    (hact : s.act ds action = some s') (hne : action ≠ .work)
    (hopen : s.queue.closed = false) (hopen' : s'.queue.closed = false) :
    ∃ new, s'.accepted = s.accepted ++ new ∧
      s'.queue.count = s.queue.count + new.length ∧
      new = action.payload?.toList.take
        (config.capacity - config.guardBand - s.queue.count) := by
  rcases act_queue_cases hact with ⟨hqueue, haccepted, hfull⟩ |
    ⟨payload, rfl, -, hroom, hqueue, haccepted⟩ | ⟨-, hqueue, -⟩ |
    ⟨buffer, hwork, -⟩
  · refine ⟨[], by rw [haccepted, List.append_nil], by rw [hqueue]; rfl, ?_⟩
    cases action with
    | offer payload =>
        have hband := hfull payload rfl hopen
        have hnone : config.capacity - config.guardBand -
            s.queue.count = 0 := by
          have := mt h.room_iff.mpr (Nat.not_lt_of_le hband)
          omega
        rw [hnone, List.take_zero]
    | _ => exact List.take_nil.symm
  · have hsome := h.room_iff.mp hroom
    obtain ⟨n, hn⟩ : ∃ n,
        config.capacity - config.guardBand - s.queue.count = n + 1 :=
      ⟨_, (Nat.succ_pred_eq_of_pos (Nat.sub_pos_of_lt hsome)).symm⟩
    refine ⟨[payload], haccepted, by rw [hqueue]; rfl, ?_⟩
    rw [hn, Action.payload?, Option.toList_some, List.take_succ_cons,
      List.take_nil]
  · rw [hqueue] at hopen'
    contradiction
  · contradiction

theorem filterMap_payload?_cons (action : Action) (rest : List Action) :
    (action :: rest).filterMap Action.payload? =
      action.payload?.toList ++ rest.filterMap Action.payload? := by
  cases h : action.payload? with
  | none => rw [List.filterMap_cons_none h, Option.toList_none, List.nil_append]
  | some payload =>
      rw [List.filterMap_cons_some h, Option.toList_some, List.singleton_append]

/-- As long as the queue is open and nobody takes from it, it accepts the
payloads that come first, until only the guard band is left. -/
theorem run_accepted (h : s.Banded config) {more : List Action}
    (hundrained : .work ∉ more) (hrun : s.run ds more = some s')
    (hopen : s'.queue.closed = false) :
    s'.accepted = s.accepted ++
      (more.filterMap Action.payload?).take
        (config.capacity - config.guardBand - s.queue.count) := by
  induction more generalizing s with
  | nil =>
      rw [run, Option.some.injEq] at hrun
      rw [hrun, List.filterMap_nil, List.take_nil, List.append_nil]
  | cons action rest ih =>
      obtain ⟨next, hnext, hrest⟩ := Option.bind_eq_some_iff.mp hrun
      rw [List.mem_cons, not_or] at hundrained
      obtain ⟨hne, hundrained⟩ := hundrained
      have hopenNext := open_of_run hrest hopen
      have hopenFirst := open_of_run hrun hopen
      obtain ⟨new, haccepted, hcount, hnew⟩ :=
        act_accepted h hnext (Ne.symm hne) hopenFirst hopenNext
      have hlength : new.length =
          min (config.capacity - config.guardBand - s.queue.count)
          action.payload?.toList.length := by
        rw [hnew, List.length_take]
      rw [ih (act_banded h hnext) hundrained hrest, haccepted, hcount,
        List.append_assoc, filterMap_payload?_cons, List.take_append, ← hnew]
      congr 3
      omega

end Actions

/-- In every state that a delivery with an accepted configuration can reach, as
many slots as the guard band has are free.  A write does not fail, and the queue
is not full to it.  If the queue is open and fewer payloads are queued than
slots lie beyond the band, the payload becomes the newest one and there is one
more in the counter of enqueued payloads; otherwise nothing changes but that
there is one more in the counter of dropped ones.  The other counters stay as
they are.  As long as nobody takes from the open queue, the payloads that come
first fill the slots beyond the band, and all others are dropped. -/
theorem run_write_pressure (ds : Downstream σ) {config : Config}
    (hvalid : config.validate = .ok ()) (sink : σ) :
    ∃ d, Delivery.new config sink = .ok d ∧
    ∀ actions s, (new d).run ds actions = some s →
      config.guardBand ≤ s.queue.remaining ∧
      (∀ payload,
        (∀ count capacity,
          s.queue.putIfAbove payload s.delivery.guardBand ≠
            .error (.queueFull count capacity)) ∧
        (s.queue.closed = false ∧
            s.queue.count < config.capacity - config.guardBand →
          ∃ (queue : Ring) (metrics : Metrics),
            queue.contents = s.queue.contents ++ [payload] ∧
            queue.closed = false ∧
            (∀ counter, metrics.get counter =
              s.delivery.exchange.metrics.get counter +
                if counter = .enqueued then 1 else 0) ∧
            s.delivery.write payload = .ok (payload.length,
              { s.delivery with exchange :=
                { s.delivery.exchange with queue, metrics } })) ∧
        (¬(s.queue.closed = false ∧
            s.queue.count < config.capacity - config.guardBand) →
          ∃ metrics : Metrics,
            (∀ counter, metrics.get counter =
              s.delivery.exchange.metrics.get counter +
                if counter = .dropped then 1 else 0) ∧
            s.delivery.write payload = .ok (0,
              { s.delivery with exchange :=
                { s.delivery.exchange with metrics } }))) ∧
      (∀ more s', .work ∉ more → s.run ds more = some s' →
        s'.queue.closed = false →
        s'.accepted = s.accepted ++
          (more.filterMap Action.payload?).take
            (config.capacity - config.guardBand - s.queue.count)) := by
  obtain ⟨d, hnew⟩ := exists_new hvalid sink
  refine ⟨d, hnew, fun actions s hrun => ?_⟩
  obtain ⟨jobs, hfaithful⟩ := run_faithful ⟨[], faithful_new hnew⟩ hrun
  have hbanded : s.Banded config :=
    run_induction (P := fun s => s.Banded config)
      (fun _ _ _ hact h => act_banded h hact) hrun (banded_new hvalid hnew)
  refine ⟨hbanded.guardBand_le, fun payload => ⟨?_, ?_, ?_⟩, ?_⟩
  · exact putIfAbove_ne_queueFull s.queue payload s.delivery.guardBand
  · rw [← hbanded.room_iff]
    rintro ⟨hopen, hroom⟩
    have hfree := Ring.count_lt_of_lt_remaining hroom
    refine ⟨s.queue.accept payload, _,
      Ring.accept_contents payload hfaithful.queue_valid hfree, hopen,
      Metrics.get_record _ _, ?_⟩
    rw [write_eq, if_pos ⟨hopen, hroom⟩]
    rfl
  · rw [← hbanded.room_iff]
    intro hrefuse
    refine ⟨_, Metrics.get_record _ _, ?_⟩
    rw [write_eq]
    exact if_neg hrefuse
  · intro more s' hundrained hmore hopen
    exact run_accepted hbanded hundrained hmore hopen

namespace PressureWitness

open OrderWitness (downstream)

/-- The worker has `1` in hand when `2` comes. -/
def before : List Action :=
  [.offer [1], .count, .start, .work, .offer [2], .count]

/-- Of three slots that lie beyond the guard band, `2` has the first. -/
def undrained : List Action :=
  [.offer [3], .count, .offer [4], .count, .offer [5], .count]

theorem run_write_pressure_sample :
    Config.validate ⟨4, 1, []⟩ = .ok () ∧
    ∃ d s s', Delivery.new ⟨4, 1, []⟩ () = .ok d ∧
      (new d).run downstream before = some s ∧
      s.run downstream undrained = some s' ∧
      (∃ d', s.delivery.write [3] = .ok (1, d') ∧
        d'.exchange.queue.contents = [[2], [3]] ∧
        d'.exchange.metrics.get .enqueued = 3 ∧
        d'.exchange.metrics.get .dropped = 0) ∧
      s'.accepted = [[1], [2], [3], [4]] ∧ 1 ≤ s'.queue.remaining ∧
      ∃ d', s'.delivery.write [6] = .ok (0, d') ∧
        d'.exchange.queue = s'.queue ∧
        d'.exchange.metrics.get .enqueued = 4 ∧
        d'.exchange.metrics.get .dropped = 2 := by
  have hvalid : Config.validate ⟨4, 1, []⟩ = .ok () := rfl
  obtain ⟨d, hnew, hpressure⟩ := run_write_pressure downstream hvalid ()
  have hsome : ((new d).run downstream before).bind (fun s =>
      (s.run downstream undrained).map fun s' =>
        (s.queue.closed, s.queue.count, s.queue.contents, s.accepted,
          s.delivery.exchange.metrics, s'.queue.closed, s'.queue.count,
          s'.delivery.exchange.metrics)) =
      some (false, 1, [[2]], [[1], [2]], ⟨2, 0, 0, 0, 0, 0⟩, false, 3,
        ⟨4, 1, 0, 0, 0, 0⟩) := by
    cases hnew
    rfl
  obtain ⟨s, hbefore, hs⟩ := Option.bind_eq_some_iff.mp hsome
  obtain ⟨s', hundrained, hs'⟩ := Option.map_eq_some_iff.mp hs
  simp only [Prod.mk.injEq] at hs'
  obtain ⟨hopen, hcount, hcontents, haccepted, hmetrics, hopen', hcount',
    hmetrics'⟩ := hs'
  obtain ⟨-, hwrite, hfill⟩ := hpressure _ _ hbefore
  have hboth : (new d).run downstream (before ++ undrained) = some s' := by
    rw [run_append, hbefore, Option.bind_some, hundrained]
  obtain ⟨hband, hwrite', -⟩ := hpressure _ _ hboth
  obtain ⟨queue, taken, hqueue, -, hget, htaken⟩ :=
    (hwrite [3]).2.1 ⟨hopen, by rw [hcount]; decide⟩
  obtain ⟨dropped, hget', hdropped⟩ := (hwrite' [6]).2.2 fun hroom => by
    rw [hcount'] at hroom
    exact absurd hroom.2 (by decide)
  rw [hmetrics] at hget
  rw [hmetrics'] at hget'
  refine ⟨hvalid, d, s, s', hnew, hbefore, hundrained,
    ⟨_, htaken, ?_, hget .enqueued, hget .dropped⟩, ?_, hband,
    _, hdropped, rfl, hget' .enqueued, hget' .dropped⟩
  · change queue.contents = _
    rw [hqueue, hcontents]
    rfl
  · rw [hfill undrained s' (by decide) hundrained hopen', haccepted, hcount]
    rfl

end PressureWitness

end Session

end Logline.Delivery
