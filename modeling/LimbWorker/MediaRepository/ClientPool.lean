import LimbWorker.MediaRepository.DriverObjects

/-!
# One client pool, many requests

Every call of `MongoClient` takes a client from the one pool, makes its objects from it and gives it back. The
threads of the service do so at the same time: a client that one of them has given back may be handed to another at
once. So whatever was made from a client may be touched only as long as the thread still holds it.

`exclusive_throughout_iff` says when that is so, for any number of threads and every order of their steps.
-/

namespace LimbWorker.MediaRepository

open Lib

/-- A call of `MongoClient`, with the answers of the driver. -/
inductive Request (Oid Metadata : Type) where
  | ping (poolPop commandSimple : Bool)
  | getImageById (env : DownloadResults) (store : Store Oid Metadata) (id : String) (size : Nat)
  | updateImageById (env : DriverResults) (store : Store Oid Metadata) (id : String) (size : Nat)
      (filedata : Bytes)

/-- A call of `getImageById`. -/
def Request.IsDownload {Oid Metadata : Type} : Request Oid Metadata → Prop
  | .getImageById _ _ _ _ => True
  | _ => False

section Requests

variable {Oid Metadata : Type} (bson_oid_init_from_string : String → Oid)

/-- What a call does to the objects of the driver; `none` where it is undefined. -/
def Request.calls : Request Oid Metadata → Option (List (Life DriverObject))
  | .ping poolPop commandSimple => (pingCalls poolPop commandSimple).map Prod.snd
  | .getImageById env store id size =>
      (getImageByIdCalls bson_oid_init_from_string env store id size).map Prod.snd
  | .updateImageById env store id size filedata =>
      (updateImageByIdCalls bson_oid_init_from_string env store id size filedata).map Prod.snd

end Requests

/-- The pool: who holds a client, and for each thread the client that its call has got, the events of the call so far
and those to come. -/
structure PoolState (τ ζ : Type) where
  owner : ζ → Option τ
  client : τ → Option ζ
  done : τ → List (Life DriverObject)
  todo : τ → List (Life DriverObject)

/-- A thread begins a call, or goes on with it; `c` is the client that the pool hands out where one is taken. -/
inductive PoolAction (τ ζ Oid Metadata : Type) where
  | begin (t : τ) (request : Request Oid Metadata)
  | call (t : τ) (c : ζ)

namespace PoolState

variable {τ ζ Oid Metadata : Type} [DecidableEq τ] [DecidableEq ζ] (bson_oid_init_from_string : String → Oid)

def init : PoolState τ ζ := ⟨fun _ => none, fun _ => none, fun _ => [], fun _ => []⟩

/-- The next event of a call. A client that is handed out is nobody's; a client that is given back becomes
nobody's. -/
def goOn (s : PoolState τ ζ) (t : τ) (c : ζ) : Life DriverObject → Option (PoolState τ ζ)
  | .create .client =>
      if s.owner c = none then
        some { s with owner := Function.update s.owner c (some t), client := Function.update s.client t (some c) }
      else none
  | .destroy .client =>
      (s.client t).map fun c => { s with owner := Function.update s.owner c none }
  | _ => some s

/-- One step. -/
def step (s : PoolState τ ζ) : PoolAction τ ζ Oid Metadata → Option (PoolState τ ζ)
  | .begin t request =>
      if s.todo t = [] then
        (request.calls bson_oid_init_from_string).map fun calls =>
          { s with
            client := Function.update s.client t none
            done := Function.update s.done t []
            todo := Function.update s.todo t calls }
      else none
  | .call t c =>
      match s.todo t with
      | [] => none
      | e :: rest => (s.goOn t c e).map fun s =>
          { s with
            done := Function.update s.done t (s.done t ++ [e])
            todo := Function.update s.todo t rest }

omit [DecidableEq τ] [DecidableEq ζ] in
/-- The step touches nothing, or what was made from a client that its thread holds. -/
def Exclusive (s : PoolState τ ζ) : PoolAction τ ζ Oid Metadata → Prop
  | .begin _ _ => True
  | .call t _ => ∀ e ∈ (s.todo t).head?, e ≠ .create .client → ∃ c, s.client t = some c ∧ s.owner c = some t

omit [DecidableEq τ] [DecidableEq ζ] in
/-- The step is not one that destroys a database right after the client was given back. -/
def InOrder (s : PoolState τ ζ) : PoolAction τ ζ Oid Metadata → Prop
  | .begin _ _ => True
  | .call t _ => (s.todo t).head? = some (.destroy .database) →
      (s.done t).getLast? ≠ some (.destroy .client)

/-! ## What a call does next -/

section Calls

variable {bson_oid_init_from_string} {request : Request Oid Metadata} {calls done rest : List (Life DriverObject)}
  {e : Life DriverObject} {live live' : List DriverObject}

/-- A call is in order, or it is a download that destroys its database too late. -/
theorem calls_cases (h : request.calls bson_oid_init_from_string = some calls) :
    (∃ live, run (Life.step DriverObject.line) [] calls = some live ∧ .client ∉ live) ∨
      request.IsDownload ∧ ∃ pre post live, calls = pre ++ .destroy .database :: post ∧
        run (Life.step DriverObject.line) [] pre = some live ∧ pre.getLast? = some (.destroy .client) ∧
        .client ∉ live := by
  cases request with
  | ping poolPop commandSimple =>
      obtain ⟨⟨ret, calls'⟩, hcalls, rfl⟩ := Option.map_eq_some_iff.mp h
      exact .inl ⟨[], pingCalls_run hcalls, List.not_mem_nil⟩
  | getImageById env store id size =>
      obtain ⟨⟨ret, calls'⟩, hcalls, rfl⟩ := Option.map_eq_some_iff.mp h
      rcases getImageByIdCalls_split bson_oid_init_from_string hcalls with hrun | hsplit
      · exact .inl ⟨[], hrun, List.not_mem_nil⟩
      · exact .inr ⟨trivial, hsplit⟩
  | updateImageById env store id size filedata =>
      obtain ⟨⟨ret, calls'⟩, hcalls, rfl⟩ := Option.map_eq_some_iff.mp h
      refine .inl ⟨_, updateImageByIdCalls_run bson_oid_init_from_string hcalls, ?_⟩
      split <;> decide

/-- Only taking a client can be done without one. -/
theorem client_mem (h : Life.step DriverObject.line live e = some live') (he : e ≠ .create .client) :
    .client ∈ live := by
  obtain ⟨hline, hcases⟩ := Life.step_eq_some h
  by_cases hobject : e.object = .client
  · rw [hobject] at hcases
    rcases hcases with ⟨heq, -, -⟩ | ⟨-, hmem, -⟩ | ⟨-, hmem, -⟩
    · exact absurd heq he
    · exact hmem
    · exact hmem
  · apply hline
    generalize e.object = o at hobject
    cases o <;> simp [DriverObject.line] at hobject ⊢

/-- Only taking and giving back a client changes whether there is one. -/
theorem client_mem_iff (h : Life.step DriverObject.line live e = some live') (hcreate : e ≠ .create .client)
    (hdestroy : e ≠ .destroy .client) : .client ∈ live' ↔ .client ∈ live := by
  rcases (Life.step_eq_some h).2 with ⟨heq, -, rfl⟩ | ⟨-, -, rfl⟩ | ⟨heq, -, rfl⟩
  · have hne : DriverObject.client ≠ e.object := fun hobject => hcreate (by rw [heq, ← hobject])
    simp [hne]
  · exact Iff.rfl
  · exact List.mem_erase_of_ne fun hobject => hdestroy (by rw [heq, ← hobject])

/-- A call that has destroyed its database too late is not in order. -/
theorem not_run_late {pre between : List (Life DriverObject)} {live₀ : List DriverObject}
    (hpre : run (Life.step DriverObject.line) [] pre = some live₀) (hgone : .client ∉ live₀) :
    run (Life.step DriverObject.line) [] (pre ++ .destroy .database :: between) ≠ some live := by
  intro h
  obtain ⟨live₁, h₁, h₂⟩ := run_append_eq_some h
  rw [hpre] at h₁
  cases h₁
  obtain ⟨live₂, h₂, -⟩ := run_cons_eq_some h₂
  exact hgone (client_mem h₂ (by simp))

/-- What a call has done in order, it goes on in order, unless it has come to that database. -/
theorem step_of_calls (h : request.calls bson_oid_init_from_string = some (done ++ e :: rest))
    (hdone : run (Life.step DriverObject.line) [] done = some live)
    (horder : e = .destroy .database → done.getLast? ≠ some (.destroy .client)) :
    ∃ live', Life.step DriverObject.line live e = some live' := by
  -- a run of the whole list goes through the call in question
  have hnext : ∀ {live' : List DriverObject} {after : List (Life DriverObject)},
      run (Life.step DriverObject.line) [] (done ++ e :: after) = some live' →
        ∃ live', Life.step DriverObject.line live e = some live' := by
    intro live' after hrun
    obtain ⟨live₁, h₁, h₂⟩ := run_append_eq_some hrun
    rw [hdone] at h₁
    cases h₁
    obtain ⟨live₂, h₂, -⟩ := run_cons_eq_some h₂
    exact ⟨live₂, h₂⟩
  rcases calls_cases h with ⟨live', hrun, -⟩ | ⟨-, pre, post, live₀, hcalls, hpre, hclient, hgone⟩
  · exact hnext hrun
  · -- the one call that is out of order lies before, at or after it
    rcases List.append_eq_append_iff.mp hcalls with ⟨between, rfl, htail⟩ | ⟨between, rfl, htail⟩
    · cases between with
      | nil =>
          rw [List.nil_append] at htail
          rw [List.append_nil] at hclient
          exact absurd hclient (horder (List.cons.inj htail).1)
      | cons e' between =>
          obtain ⟨rfl, -⟩ := List.cons.inj htail
          exact hnext hpre
    · cases between with
      | nil =>
          rw [List.nil_append] at htail
          rw [List.append_nil] at horder
          exact absurd hclient (horder (List.cons.inj htail).1.symm)
      | cons e' between =>
          obtain ⟨rfl, -⟩ := List.cons.inj htail
          exact absurd hdone (not_run_late hpre hgone)

/-- A call that has ended in order has no client any more. -/
theorem client_not_mem (h : request.calls bson_oid_init_from_string = some done)
    (hdone : run (Life.step DriverObject.line) [] done = some live) : .client ∉ live := by
  rcases calls_cases h with ⟨live', hrun, hclient⟩ | ⟨-, pre, post, live₀, rfl, hpre, -, hgone⟩
  · rw [hdone] at hrun
    cases hrun
    exact hclient
  · exact absurd hdone (not_run_late hpre hgone)

end Calls

/-! ## The invariant -/

omit [DecidableEq τ] [DecidableEq ζ] in
/-- Every call is on its way and has been in order, and a thread holds the client that its call has got as long as
that one is alive. The calls are of some kind. -/
structure Inv (kind : Request Oid Metadata → Prop) (s : PoolState τ ζ) : Prop where
  calls : ∀ t, ∃ request, kind request ∧
    request.calls bson_oid_init_from_string = some (s.done t ++ s.todo t)
  live : ∀ t, ∃ live, run (Life.step DriverObject.line) [] (s.done t) = some live ∧
    (.client ∈ live ↔ ∃ c, s.client t = some c ∧ s.owner c = some t)
  owner : ∀ t c, s.owner c = some t → s.client t = some c

variable {bson_oid_init_from_string} {kind : Request Oid Metadata → Prop} {s s' : PoolState τ ζ}

omit [DecidableEq τ] [DecidableEq ζ] in
theorem inv_init (hping : kind (.ping false false)) :
    Inv bson_oid_init_from_string kind (init : PoolState τ ζ) where
  calls := fun _ => ⟨.ping false false, hping, rfl⟩
  live := fun _ => ⟨[], rfl, by simp [init]⟩
  owner := fun _ _ h => by cases h

omit [DecidableEq τ] [DecidableEq ζ] in
/-- **The guards agree**: only the destruction of a database after its client is not covered by the client. -/
theorem Inv.exclusive_iff (h : Inv bson_oid_init_from_string kind s) (act : PoolAction τ ζ Oid Metadata) :
    Exclusive s act ↔ InOrder s act := by
  cases act with
  | begin t request => exact Iff.rfl
  | call t c =>
      obtain ⟨request, -, hcalls⟩ := h.calls t
      obtain ⟨live, hdone, hlive⟩ := h.live t
      simp only [Exclusive, InOrder]
      cases htodo : s.todo t with
      | nil => simp
      | cons e rest =>
          rw [htodo] at hcalls
          simp only [List.head?_cons, Option.mem_some_iff, forall_eq', Option.some.injEq]
          rw [← hlive]
          constructor
          · rintro hclient rfl hlast
            -- the client was taken out of the living just now
            obtain ⟨before, hbefore⟩ := List.getLast?_eq_some_iff.mp hlast
            rw [hbefore] at hdone
            obtain ⟨live₁, h₁, h₂⟩ := run_append_eq_some hdone
            obtain ⟨live₂, hstep, hend⟩ := run_cons_eq_some h₂
            cases hend
            have hnodup := run_invariant (fun _ _ _ => Life.nodup_step) List.nodup_nil h₁
            rcases (Life.step_eq_some hstep).2 with ⟨heq, -⟩ | ⟨heq, -⟩ | ⟨-, -, rfl⟩
            · cases heq
            · cases heq
            · exact (hnodup.mem_erase_iff.mp (hclient (by simp))).1 rfl
          · intro horder he
            obtain ⟨live', hstep⟩ := step_of_calls hcalls hdone horder
            exact client_mem hstep he

/-- A thread begins a call when the one before has ended. -/
theorem inv_begin {t : τ} {request : Request Oid Metadata} (h : Inv bson_oid_init_from_string kind s)
    (hkind : kind request)
    (hs : s.step bson_oid_init_from_string (.begin t request : PoolAction τ ζ Oid Metadata) = some s') :
    Inv bson_oid_init_from_string kind s' := by
  simp only [step] at hs
  split at hs
  · next htodo =>
    obtain ⟨calls, hcalls, rfl⟩ := Option.map_eq_some_iff.mp hs
    -- a thread without calls owns no client
    have hnone : ∀ c, s.owner c ≠ some t := by
      intro c hc
      obtain ⟨request', -, hrequest⟩ := h.calls t
      obtain ⟨live, hdone, hlive⟩ := h.live t
      rw [htodo, List.append_nil] at hrequest
      exact client_not_mem hrequest hdone (hlive.mpr ⟨c, h.owner t c hc, hc⟩)
    refine ⟨fun t' => ?_, fun t' => ?_, fun t' c hc => ?_⟩
    · by_cases ht : t' = t
      · subst ht
        exact ⟨request, hkind, by simpa using hcalls⟩
      · simpa [ht] using h.calls t'
    · by_cases ht : t' = t
      · subst ht
        exact ⟨[], by simp, by simp⟩
      · simpa [ht] using h.live t'
    · have ht : t' ≠ t := fun heq => hnone c (heq ▸ hc)
      simpa [ht] using h.owner t' c hc
  · cases hs

/-! ### A thread goes on -/

omit [DecidableEq τ] [DecidableEq ζ] in
/-- What the next event of a call does to the pool; `live'` is what the call has then. -/
structure GoneOn (s s' : PoolState τ ζ) (t : τ) (live' : List DriverObject) : Prop where
  done : s'.done = s.done
  todo : s'.todo = s.todo
  client : .client ∈ live' ↔ ∃ c, s'.client t = some c ∧ s'.owner c = some t
  owner : ∀ t' c, s'.owner c = some t' → s'.client t' = some c
  others : ∀ t', t' ≠ t → s'.client t' = s.client t' ∧ ∀ c, s'.owner c = some t' ↔ s.owner c = some t'

section GoOn

variable {s₁ : PoolState τ ζ} {t : τ} {c : ζ} {e : Life DriverObject} {live live' : List DriverObject}

/-- The call takes a client, which was nobody's. -/
theorem goneOn_create (howner : ∀ t c, s.owner c = some t → s.client t = some c)
    (hlive : .client ∈ live ↔ ∃ c, s.client t = some c ∧ s.owner c = some t)
    (hstep : Life.step DriverObject.line live (.create .client) = some live')
    (hs : s.goOn t c (.create .client) = some s₁) : GoneOn s s₁ t live' := by
  obtain ⟨hfree, hsome⟩ := Option.ite_none_right_eq_some.mp hs
  cases hsome
  rcases (Life.step_eq_some hstep).2 with ⟨-, hnot, rfl⟩ | ⟨heq, -⟩ | ⟨heq, -⟩
  rotate_left
  · cases heq
  · cases heq
  have hnone : ∀ c', s.owner c' ≠ some t := fun c' hc' => hnot (hlive.mpr ⟨c', howner t c' hc', hc'⟩)
  refine ⟨rfl, rfl, iff_of_true List.mem_cons_self ⟨c, by simp, by simp⟩, fun t' c' hc' => ?_,
    fun t' ht => ⟨by simp [ht], fun c' => ?_⟩⟩
  · by_cases hc : c' = c
    · subst hc
      have ht : t = t' := by simpa using hc'
      simp [ht]
    · have hold : s.owner c' = some t' := by simpa [hc] using hc'
      have ht : t' ≠ t := fun heq => hnone c' (heq ▸ hold)
      simpa [ht] using howner t' c' hold
  · by_cases hc : c' = c
    · subst hc
      simp [hfree, Ne.symm ht]
    · simp [hc]

/-- The call gives its client back, which becomes nobody's. -/
theorem goneOn_destroy (howner : ∀ t c, s.owner c = some t → s.client t = some c)
    (hlive : .client ∈ live ↔ ∃ c, s.client t = some c ∧ s.owner c = some t) (hnodup : live.Nodup)
    (hstep : Life.step DriverObject.line live (.destroy .client) = some live')
    (hs : s.goOn t c (.destroy .client) = some s₁) : GoneOn s s₁ t live' := by
  obtain ⟨c₀, hclient, hown⟩ := hlive.mp (client_mem hstep (by simp))
  obtain ⟨c₁, hc₁, rfl⟩ := Option.map_eq_some_iff.mp hs
  rw [hclient] at hc₁
  cases hc₁
  rcases (Life.step_eq_some hstep).2 with ⟨heq, -⟩ | ⟨heq, -⟩ | ⟨-, -, rfl⟩
  · cases heq
  · cases heq
  refine ⟨rfl, rfl, ?_, fun t' c' hc' => ?_, fun t' ht => ⟨rfl, fun c' => ?_⟩⟩
  · refine iff_of_false (fun hin => (hnodup.mem_erase_iff.mp hin).1 rfl) ?_
    rintro ⟨c', hc', ho⟩
    rw [hclient] at hc'
    cases hc'
    simp at ho
  · by_cases hc : c' = c₀
    · subst hc
      simp at hc'
    · exact howner t' c' (by simpa [hc] using hc')
  · by_cases hc : c' = c₀
    · subst hc
      simp [hown, Ne.symm ht]
    · simp [hc]

/-- Nothing else concerns the pool. -/
theorem goOn_of_ne (hcreate : e ≠ .create .client) (hdestroy : e ≠ .destroy .client) :
    s.goOn t c e = some s := by
  cases e with
  | create o => cases o <;> first | rfl | exact absurd rfl hcreate
  | use o => rfl
  | destroy o => cases o <;> first | rfl | exact absurd rfl hdestroy

/-- The next event, whatever it is. -/
theorem goneOn (howner : ∀ t c, s.owner c = some t → s.client t = some c)
    (hlive : .client ∈ live ↔ ∃ c, s.client t = some c ∧ s.owner c = some t) (hnodup : live.Nodup)
    (hstep : Life.step DriverObject.line live e = some live') (hs : s.goOn t c e = some s₁) :
    GoneOn s s₁ t live' := by
  by_cases hcreate : e = .create .client
  · subst hcreate
    exact goneOn_create howner hlive hstep hs
  by_cases hdestroy : e = .destroy .client
  · subst hdestroy
    exact goneOn_destroy howner hlive hnodup hstep hs
  rw [goOn_of_ne hcreate hdestroy] at hs
  cases hs
  exact ⟨rfl, rfl, (client_mem_iff hstep hcreate hdestroy).trans hlive, howner,
    fun _ _ => ⟨rfl, fun _ => Iff.rfl⟩⟩

end GoOn

/-- A thread goes on with its call. -/
theorem inv_call {t : τ} {c : ζ} (h : Inv bson_oid_init_from_string kind s)
    (hexclusive : Exclusive s (.call t c : PoolAction τ ζ Oid Metadata))
    (hs : s.step bson_oid_init_from_string (.call t c : PoolAction τ ζ Oid Metadata) = some s') :
    Inv bson_oid_init_from_string kind s' := by
  have horder := (h.exclusive_iff _).mp hexclusive
  simp only [step] at hs
  split at hs
  · cases hs
  next e rest htodo =>
  obtain ⟨s₁, hgoOn, rfl⟩ := Option.map_eq_some_iff.mp hs
  obtain ⟨live, hdone, hlive⟩ := h.live t
  obtain ⟨request, hkind, hcalls⟩ := h.calls t
  rw [htodo] at hcalls
  simp only [InOrder, htodo, List.head?_cons, Option.some.injEq] at horder
  -- the call is in order, so the object it needs is there
  obtain ⟨live', hstep⟩ := step_of_calls hcalls hdone horder
  have hnodup := run_invariant (fun _ _ _ => Life.nodup_step) List.nodup_nil hdone
  have hgone := goneOn h.owner hlive hnodup hstep hgoOn
  refine ⟨fun t' => ?_, fun t' => ?_, hgone.owner⟩
  · by_cases ht : t' = t
    · subst ht
      exact ⟨request, hkind, by simpa [hgone.done] using hcalls⟩
    · simpa [ht, hgone.done, hgone.todo] using h.calls t'
  · by_cases ht : t' = t
    · subst ht
      exact ⟨live', by simpa [hgone.done] using run_trans hdone (run_cons_of hstep), hgone.client⟩
    · obtain ⟨hsame, hown⟩ := hgone.others t' ht
      simpa [ht, hgone.done, hsame, hown] using h.live t'

omit [DecidableEq τ] [DecidableEq ζ] in
/-- Without downloads everything is done while the thread holds its client. -/
theorem Inv.exclusive
    (h : Inv bson_oid_init_from_string (fun request : Request Oid Metadata => ¬ request.IsDownload) s)
    (act : PoolAction τ ζ Oid Metadata) : Exclusive s act := by
  cases act with
  | begin t request => exact trivial
  | call t c =>
      obtain ⟨request, hkind, hcalls⟩ := h.calls t
      obtain ⟨live, hdone, hlive⟩ := h.live t
      intro e he hcreate
      obtain ⟨rest, htodo⟩ := List.head?_eq_some_iff.mp he
      rcases calls_cases hcalls with ⟨live', hrun, -⟩ | ⟨hdownload, -⟩
      · rw [htodo] at hrun
        obtain ⟨live₁, h₁, h₂⟩ := run_append_eq_some hrun
        rw [hdone] at h₁
        cases h₁
        obtain ⟨live₂, hstep, -⟩ := run_cons_eq_some h₂
        exact hlive.mp (client_mem hstep hcreate)
      · exact absurd hdownload hkind

/-- **Who shares the pool**: in every interleaving of any number of threads, whatever was made from a client is touched
while its thread holds that client, just as long as no thread destroys a database right after it has given the client
back. Only downloads do that. -/
theorem exclusive_throughout_iff (bson_oid_init_from_string : String → Oid)
    (acts : List (PoolAction τ ζ Oid Metadata)) :
    (Guarded (step bson_oid_init_from_string) Exclusive (init : PoolState τ ζ) acts ↔
        Guarded (step bson_oid_init_from_string) InOrder (init : PoolState τ ζ) acts) ∧
      ((∀ t request, .begin t request ∈ acts → ¬ request.IsDownload) →
        Guarded (step bson_oid_init_from_string) Exclusive (init : PoolState τ ζ) acts) := by
  constructor
  · refine guarded_congr (I := Inv bson_oid_init_from_string fun _ : Request Oid Metadata => True)
      (fun _ act h => h.exclusive_iff act) (fun s act s' h hexclusive hs => ?_) (inv_init trivial)
    cases act with
    | begin t request => exact inv_begin h trivial hs
    | call t c => exact inv_call h hexclusive hs
  · intro hnone
    refine guarded_of_invariant
      (I := Inv bson_oid_init_from_string fun request : Request Oid Metadata => ¬ request.IsDownload)
      (K := fun act => ∀ t request, act = .begin t request → ¬ request.IsDownload)
      (fun _ act h _ => h.exclusive act) (fun s act s' h hkind hs => ?_) (inv_init id)
      fun act hact t request heq => hnone t request (heq ▸ hact)
    cases act with
    | begin t request => exact inv_begin h (hkind t request rfl) hs
    | call t c => exact inv_call h (h.exclusive _) hs

end PoolState

end LimbWorker.MediaRepository
