import LimbWorker.AppTransport.Settlement
import LimbWorker.Lib.StepSystem
import Mathlib.Data.List.Nodup
import Mathlib.Data.List.Perm.Subperm

/-!
# Deliveries that are never settled

The broker hands out a delivery only while fewer than the prefetch count are unsettled, and closes the channel when a
tag is settled once more. So how often the handling of a delivery settles it decides for how long the consumer of
`ProcessImage` gets deliveries at all.

Any number of deliveries are worked on at the same time; a step is one call on the channel, of any of them. What a
closed channel does to its deliveries is left open, as none is handed out over it any more.
-/

namespace LimbWorker.AppTransport

open Lib

/-- The tag that a call settles. -/
def ChannelCall.settledTag : ChannelCall → Option Nat
  | .sendResponse _ _ => none
  | .sendResponseMessage _ tag _ | .sendReject tag | .sendAck tag => some tag

/-- The deliveries so far, each with its surroundings; the tag of a delivery is its place. For each tag the calls that
were made and those to come; which are unsettled, and whether the channel was closed. -/
structure Deliveries where
  received : List (Surroundings × Message)
  done : Nat → List ChannelCall
  todo : Nat → List ChannelCall
  unsettled : List Nat
  closed : Bool

/-- The broker hands out a delivery, or the handling of one makes its next call. -/
inductive DeliveryAction where
  | deliver (env : Surroundings) (message : Message)
  | call (tag : Nat)

namespace Deliveries

variable (prefetch : Nat)

def init : Deliveries := ⟨[], fun _ => [], fun _ => [], [], false⟩

/-- The broker may hand out a delivery. -/
def Open (s : Deliveries) : Prop := s.closed = false ∧ s.unsettled.length < prefetch

instance (s : Deliveries) : Decidable (s.Open prefetch) := inferInstanceAs (Decidable (_ ∧ _))

/-- The broker learns that a tag is settled. -/
def settle (s : Deliveries) : Option Nat → Deliveries
  | none => s
  | some tag => { s with unsettled := s.unsettled.erase tag, closed := s.closed || decide (tag ∉ s.unsettled) }

/-- One step. A delivery whose handling is undefined is left out. -/
def step (s : Deliveries) : DeliveryAction → Option Deliveries
  | .deliver env message =>
      let tag := s.received.length
      let handler := onReceived env message tag
      if s.Open prefetch ∧ handler.result ≠ .error .undefinedBehaviour then
        some { s with
          received := s.received ++ [(env, message)]
          todo := Function.update s.todo tag handler.events
          unsettled := s.unsettled ++ [tag] }
      else none
  | .call tag =>
      match s.todo tag with
      | [] => none
      | call :: rest =>
          some { s.settle call.settledTag with
            done := Function.update s.done tag (s.done tag ++ [call])
            todo := Function.update s.todo tag rest }

/-- How often the handling of a delivery settles it, from its first call to its last. -/
def settles (s : Deliveries) (tag : Nat) : Nat :=
  (s.received[tag]?).elim 0 fun d => settled tag (onReceived d.1 d.2 tag).events

/-- The deliveries that their handling does not settle. -/
def forgotten (s : Deliveries) : List Nat := (List.range s.received.length).filter fun tag => s.settles tag = 0

@[simp] theorem mem_forgotten {s : Deliveries} {tag : Nat} :
    tag ∈ s.forgotten ↔ tag < s.received.length ∧ s.settles tag = 0 := by
  simp [forgotten]

theorem nodup_forgotten (s : Deliveries) : s.forgotten.Nodup := List.nodup_range.filter _

/-! ## The calls of a handler -/

theorem settles_eq (call : ChannelCall) (tag : Nat) :
    call.settles tag = if call.settledTag = some tag then 1 else 0 := by
  cases call <;> simp [ChannelCall.settles, ChannelCall.settledTag]

/-- A handler settles no tag but its own. -/
theorem emits_onReceived (env : Surroundings) (message : Message) (tag : Nat) :
    (onReceived env message tag).Emits fun call => ∀ t ∈ call.settledTag, t = tag := by
  have hown : ∀ {t : Nat}, t ∈ some tag → t = tag := fun ht => (Option.some.inj ht).symm
  unfold onReceived consumeProcessImage
  split
  · intro call hcall
    have hreject : call ∈ [ChannelCall.sendReject tag] := hcall
    cases List.mem_singleton.mp hreject
    exact fun t => hown
  · intro call hcall
    rw [Traced.pure_bind, Traced.events_swallow] at hcall
    exact emits_handleProcessImage (P := fun call => ∀ t ∈ call.settledTag, t = tag) (fun t => hown) (fun t => hown)
      (fun _ t ht => by cases ht) call hcall

/-! ## The invariant -/

/-- Every delivery is on its way; the unsettled ones are those that were not settled so far, and the channel is closed
if one was settled twice. -/
structure Inv (s : Deliveries) : Prop where
  calls : ∀ tag d, s.received[tag]? = some d → s.done tag ++ s.todo tag = (onReceived d.1 d.2 tag).events
  later : ∀ tag, s.received.length ≤ tag → s.done tag = [] ∧ s.todo tag = []
  nodup : s.unsettled.Nodup
  unsettled : ∀ tag, tag ∈ s.unsettled ↔ tag < s.received.length ∧ settled tag (s.done tag) = 0
  closed : s.closed = true ↔ ∃ tag, 2 ≤ settled tag (s.done tag)

variable {prefetch} {s s' : Deliveries}

theorem inv_init : Inv init where
  calls := fun tag d h => by simp [init] at h
  later := fun _ _ => ⟨rfl, rfl⟩
  nodup := List.nodup_nil
  unsettled := fun tag => by simp [init]
  closed := by simp [init]

/-- What is to be settled is what was settled and what will be. -/
theorem Inv.settles_eq_add (h : Inv s) (tag : Nat) :
    s.settles tag = settled tag (s.done tag) + settled tag (s.todo tag) := by
  unfold settles
  cases hd : s.received[tag]? with
  | none =>
      obtain ⟨hdone, htodo⟩ := h.later tag (List.getElem?_eq_none_iff.mp hd)
      rw [hdone, htodo]
      rfl
  | some d => rw [Option.elim_some, ← h.calls tag d hd, settled_append]

/-- A new delivery. -/
theorem Inv.deliver (h : Inv s) {env : Surroundings} {message : Message}
    (hs : s.step prefetch (.deliver env message) = some s') : Inv s' := by
  obtain ⟨-, hs⟩ := Option.ite_none_right_eq_some.mp hs
  cases hs
  obtain ⟨hdone, -⟩ := h.later s.received.length (Nat.le_refl _)
  -- the tag of the delivery is a new one, and has not been answered
  have hnew : s.received.length ∉ s.unsettled := fun hmem => Nat.lt_irrefl _ ((h.unsettled _).mp hmem).1
  refine ⟨fun tag d hd => ?_, fun tag htag => ?_, ?_, fun tag => ?_, h.closed⟩
  · by_cases htag : tag = s.received.length
    · subst htag
      simp only [List.getElem?_concat_length, Option.some.injEq] at hd
      subst hd
      simp [hdone]
    · have hlt : tag < s.received.length := by
        have hlen := (List.getElem?_eq_some_iff.mp hd).1
        simp at hlen
        omega
      rw [List.getElem?_append_left hlt] at hd
      simpa [htag] using h.calls tag d hd
  · simp only [List.length_append, List.length_singleton] at htag
    have hne : tag ≠ s.received.length := by omega
    simpa [hne] using h.later tag (by omega)
  · exact List.nodup_append.mpr ⟨h.nodup, List.nodup_singleton _, fun a ha b hb => by
      rw [List.mem_singleton.mp hb]
      exact fun heq => hnew (heq ▸ ha)⟩
  · simp only [List.mem_append, List.mem_singleton, List.length_append, List.length_singleton, h.unsettled]
    by_cases htag : tag = s.received.length
    · subst htag
      simp [hdone]
    · simp only [htag, or_false, and_congr_left_iff]
      intro _
      omega

/-- A call counts for its own delivery. -/
theorem Inv.call (h : Inv s) {tag : Nat} (hs : s.step prefetch (.call tag) = some s') : Inv s' := by
  simp only [step] at hs
  split at hs
  · cases hs
  next call rest htodo =>
  cases hs
  have hlt : tag < s.received.length := by
    by_contra hge
    rw [(h.later tag (Nat.le_of_not_lt hge)).2] at htodo
    cases htodo
  -- a delivery answers itself only
  have hown : ∀ t ∈ call.settledTag, t = tag := by
    refine emits_onReceived s.received[tag].1 s.received[tag].2 tag call ?_
    rw [← h.calls tag _ (List.getElem?_eq_getElem hlt), htodo]
    exact List.mem_append_right _ List.mem_cons_self
  -- the counts after the call
  have hcount : ∀ t, settled t (Function.update s.done tag (s.done tag ++ [call]) t) =
      settled t (s.done t) + if call.settledTag = some t then 1 else 0 := by
    intro t
    by_cases ht : t = tag
    · subst ht
      rw [Function.update_self, settled_append, settled_cons, settled_nil, settles_eq, Nat.add_zero]
    · have hne : call.settledTag ≠ some t := fun hsome => ht (hown t hsome)
      rw [Function.update_of_ne ht, if_neg hne, Nat.add_zero]
  have hreceived : (s.settle call.settledTag).received = s.received := by
    cases call.settledTag <;> rfl
  refine ⟨fun t d hd => ?_, fun t ht => ?_, ?_, fun t => ?_, ?_⟩
  · rw [hreceived] at hd
    have hcalls := h.calls t d hd
    by_cases ht : t = tag
    · subst ht
      simpa [htodo] using hcalls
    · simpa [ht] using hcalls
  · rw [hreceived] at ht
    have hne : t ≠ tag := by omega
    simpa [hne] using h.later t ht
  · cases call.settledTag with
    | none => exact h.nodup
    | some t => exact h.nodup.erase t
  · dsimp only
    rw [hcount, hreceived]
    cases hsettled : call.settledTag with
    | none => simpa [settle] using h.unsettled t
    | some t' =>
        obtain rfl := hown t' hsettled
        -- the tag leaves the list exactly when its count rises from zero
        simp only [settle, h.nodup.mem_erase_iff, h.unsettled, Option.some.injEq]
        by_cases ht : t = t'
        · simp [ht]
        · simp [ht, Ne.symm ht]
  · dsimp only
    simp only [hcount]
    cases hsettled : call.settledTag with
    | none => simpa [settle] using h.closed
    | some t' =>
        obtain rfl := hown t' hsettled
        simp only [settle, Bool.or_eq_true, decide_eq_true_eq, h.closed, h.unsettled, hlt, true_and,
          Option.some.injEq]
        constructor
        · -- a second answer to one tag is what closes the channel
          rintro (⟨t, ht⟩ | hne)
          · exact ⟨t, Nat.le_add_right_of_le ht⟩
          · exact ⟨t', by rw [if_pos rfl]; omega⟩
        · rintro ⟨t, ht⟩
          by_cases htag : t' = t
          · subst htag
            rw [if_pos rfl] at ht
            exact .inr (by omega)
          · rw [if_neg htag] at ht
            exact .inl ⟨t, ht⟩

theorem Inv.step {act : DeliveryAction} (h : Inv s) (hs : s.step prefetch act = some s') : Inv s' := by
  cases act with
  | deliver env message => exact h.deliver hs
  | call tag => exact h.call hs

/-! ## What is never settled -/

/-- What is forgotten is unsettled, before its last call and after it. -/
theorem Inv.forgotten_length_le (h : Inv s) : s.forgotten.length ≤ s.unsettled.length := by
  refine (s.nodup_forgotten.subperm fun tag htag => ?_).length_le
  obtain ⟨hlt, hzero⟩ := mem_forgotten.mp htag
  have hsum := h.settles_eq_add tag
  exact (h.unsettled tag).mpr ⟨hlt, by omega⟩

/-- A step that hands out nothing leaves the deliveries as they were. -/
theorem received_step {act : DeliveryAction} (hs : s.step prefetch act = some s') (hclosed : ¬ s.Open prefetch) :
    s'.received = s.received := by
  cases act with
  | deliver env message => exact absurd (Option.ite_none_right_eq_some.mp hs).1.1 hclosed
  | call tag =>
      simp only [Deliveries.step] at hs
      split at hs
      · cases hs
      next call rest htodo =>
      cases hs
      cases call.settledTag <;> rfl

/-- With as many deliveries forgotten as may be unsettled, no other one comes. -/
theorem received_run (h : Inv s) (hforgotten : prefetch ≤ s.forgotten.length) {acts : List DeliveryAction}
    (hrun : run (step prefetch) s acts = some s') : s'.received = s.received := by
  refine (run_invariant (I := fun s' => Inv s' ∧ s'.received = s.received) ?_ ⟨h, rfl⟩ hrun).2
  rintro s₁ act s₂ ⟨h₁, hreceived⟩ hs
  have hsame : s₁.forgotten = s.forgotten := by
    unfold forgotten settles
    rw [hreceived]
  refine ⟨h₁.step hs, (received_step hs fun hopen => ?_).trans hreceived⟩
  have hle := h₁.forgotten_length_le
  rw [hsame] at hle
  exact Nat.lt_irrefl _ (Nat.lt_of_lt_of_le hopen.2 (Nat.le_trans hforgotten hle))

/-- When every call was made, it is known what the broker knows. -/
theorem Inv.open_iff (h : Inv s) (hdone : ∀ tag, s.todo tag = []) :
    s.Open prefetch ↔ (∀ tag, s.settles tag ≤ 1) ∧ s.forgotten.length < prefetch := by
  have hsettles : ∀ tag, s.settles tag = settled tag (s.done tag) := by
    intro tag
    rw [h.settles_eq_add, hdone, settled_nil, Nat.add_zero]
  have hlength : s.forgotten.length = s.unsettled.length := by
    have hperm : s.forgotten.Perm s.unsettled := by
      refine (List.perm_ext_iff_of_nodup s.nodup_forgotten h.nodup).mpr fun tag => ?_
      rw [h.unsettled, mem_forgotten, hsettles]
    exact hperm.length_eq
  rw [Open, hlength, ← Bool.not_eq_true, h.closed]
  refine and_congr_left fun _ => ⟨fun hnone tag => ?_, fun hle ⟨tag, htwo⟩ => ?_⟩
  · rw [hsettles]
    by_contra htwo
    exact hnone ⟨tag, by omega⟩
  · have htag := hle tag
    rw [hsettles] at htag
    omega

/-- **How long the consumer lives**: in every interleaving, once the handlers of as many deliveries as the prefetch
count do not settle them, no delivery is handed out any more, whatever happens; and when all handlers are done, the
next delivery is handed out just when none of the deliveries was settled twice and fewer than the prefetch count were
not settled. -/
theorem delivers_again_iff (prefetch : Nat) {acts : List DeliveryAction}
    (h : run (step prefetch) init acts = some s) :
    (prefetch ≤ s.forgotten.length →
        ∀ acts' s', run (step prefetch) s acts' = some s' → s'.received = s.received) ∧
      ((∀ tag, s.todo tag = []) → ∀ env message,
        (onReceived env message s.received.length).result ≠ .error .undefinedBehaviour →
          ((s.step prefetch (.deliver env message)).isSome ↔
            (∀ tag, s.settles tag ≤ 1) ∧ s.forgotten.length < prefetch)) := by
  have hinv : Inv s := run_invariant (fun _ _ _ hinv hs => hinv.step hs) inv_init h
  refine ⟨fun hforgotten acts' s' hrun => received_run hinv hforgotten hrun, fun hdone env message hdefined => ?_⟩
  rw [← hinv.open_iff hdone]
  simp only [step]
  split
  · next hopen => exact iff_of_true rfl hopen.1
  · next hnot => exact iff_of_false (by simp) fun hopen => hnot ⟨hopen, hdefined⟩

/-- The one task that may be unsettled fails. -/
def failedTask : List DeliveryAction := [.deliver (quietWorker ⟨[], some .kAborted⟩) ⟨"c", "r", taskBody⟩, .call 0]

theorem failedTask_delivers_again_iff :
    ∃ s, run (step 1) init failedTask = some s ∧
      (∀ acts' s', run (step 1) s acts' = some s' → s'.received = s.received) ∧
      ∀ env message, (onReceived env message s.received.length).result ≠ .error .undefinedBehaviour →
        ((s.step 1 (.deliver env message)).isSome ↔ (∀ tag, s.settles tag ≤ 1) ∧ s.forgotten.length < 1) := by
  have hboth := delivers_again_iff 1 (show run (step 1) init failedTask = some _ from rfl)
  refine ⟨_, rfl, hboth.1 (by decide), hboth.2 fun tag => ?_⟩
  cases tag <;> rfl

end Deliveries

end LimbWorker.AppTransport
