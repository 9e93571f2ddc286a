import LimbWorker.Image.CodecFactory

/-!
# How many codecs there are

The factory never deletes a codec. It makes one only when none of the type is left in its vector, so there are never
more of a type than clients have held at the same time: `made_eq_highest`.
-/

namespace LimbWorker.Image

open Lib

namespace PoolState

open CodecFactory

variable {γ : Type}

/-- The codecs of a type that were made. -/
def made (t : CodecType) (s : PoolState γ) : Nat := s.factory.created.count t

/-- Those that are in the vector of the type. -/
def stored (t : CodecType) (s : PoolState γ) : Nat := (s.factory.m_pool t).length

/-- Those that clients hold. -/
def inUse (t : CodecType) (s : PoolState γ) : Nat := s.held.countP fun h => s.factory.type h.2 = some t

variable [DecidableEq γ] {s s' : PoolState γ} {t : CodecType}

/-- A codec is in the vector of its type or in use. -/
def Counted (s : PoolState γ) : Prop := Inv s ∧ ∀ t, s.made t = s.stored t + s.inUse t

omit [DecidableEq γ] in
/-- One more codec in use. -/
theorem inUse_acquired (h : Inv s) {type : CodecType} {codec : CodecId} {f' : CodecFactory} (client : γ)
    (hacquired : Acquired s.factory type codec f') (t : CodecType) :
    inUse t ⟨f', s.held ++ [(client, codec)]⟩ = s.inUse t + if type = t then 1 else 0 := by
  -- the types of the others do not change
  have hold : s.held.countP (fun held => f'.type held.2 = some t) = s.inUse t := by
    refine List.countP_congr fun held hheld => ?_
    have hlt := h.lt_of_held (show (held.1, held.2) ∈ s.held from hheld)
    have htype : s.factory.type held.2 = some s.factory.created[held.2] := List.getElem?_eq_getElem hlt
    rw [htype, hacquired.types held.2 _ htype]
  rw [inUse, List.countP_append, hold, List.countP_singleton, hacquired.type_eq]
  simp

/-- **Acquiring** takes a codec from the vector, or makes one where there is none. -/
theorem acquire_counts {f f' : CodecFactory} {type : CodecType} {codec : CodecId}
    (hacquire : f.acquireFromType type = some (codec, f')) (t : CodecType) :
    (f'.created.count t = f.created.count t ∧
        (f'.m_pool t).length + (if type = t then 1 else 0) = (f.m_pool t).length) ∨
      f'.created.count t = f.created.count t + (if type = t then 1 else 0) ∧ f'.m_pool t = f.m_pool t ∧
        (type = t → f.m_pool t = []) := by
  unfold acquireFromType at hacquire
  split at hacquire
  · cases hacquire
  rcases List.eq_nil_or_concat (f.m_pool type) with hnil | ⟨rest, last, heq⟩
  · -- an empty pool: a codec is made
    rw [hnil] at hacquire
    cases hacquire
    refine .inr ⟨?_, rfl, ?_⟩
    · rw [List.count_append, List.count_singleton]
      simp
    · rintro rfl
      exact hnil
  · rw [heq, List.concat_eq_append, List.getLast?_concat] at hacquire
    cases hacquire
    refine .inl ⟨rfl, ?_⟩
    by_cases ht : type = t
    · subst ht
      rw [if_pos rfl, m_pool_setPool_self, heq, List.dropLast_concat, List.concat_eq_append, List.length_append]
      rfl
    · rw [if_neg ht, m_pool_setPool_of_ne (Ne.symm ht), Nat.add_zero]

omit [DecidableEq γ] in
/-- What a client gets is counted, and raises the number made to the number in use. -/
theorem Counted.acquire (h : Counted s) {type : CodecType} {codec : CodecId} {f' : CodecFactory} (client : γ)
    (hacquire : s.factory.acquireFromType type = some (codec, f')) (t : CodecType) :
    made t ⟨f', s.held ++ [(client, codec)]⟩ =
        stored t ⟨f', s.held ++ [(client, codec)]⟩ + inUse t ⟨f', s.held ++ [(client, codec)]⟩ ∧
      made t ⟨f', s.held ++ [(client, codec)]⟩ = max (s.made t) (inUse t ⟨f', s.held ++ [(client, codec)]⟩) := by
  have htype : type ≠ .Count := by
    rintro rfl
    cases hacquire
  obtain ⟨codec', f'', hacquire', hspec⟩ := acquireFromType_spec h.1.filed htype
  rw [hacquire] at hacquire'
  cases hacquire'
  have hcounted := h.2 t
  rw [made, stored] at hcounted
  rw [inUse_acquired h.1 client hspec t, made, stored, made]
  rcases acquire_counts hacquire t with ⟨hmade, hpool⟩ | ⟨hmade, hpool, hnil⟩
  · -- a codec from the pool leaves the number made as it was; a new one is made when the pool is empty
    rw [hmade]
    dsimp only at hpool ⊢
    omega
  · rw [hmade]
    dsimp only at hpool ⊢
    rw [hpool]
    by_cases ht : type = t
    · rw [hnil ht] at hcounted ⊢
      simp only [ht, if_true, List.length_nil] at hcounted ⊢
      omega
    · rw [if_neg ht]
      omega

/-- What a client gives back goes into the vector. -/
theorem Counted.reclaim (h : Counted s) {client : γ} {codec : CodecId} {f' : CodecFactory}
    (hheld : (client, codec) ∈ s.held) (hreclaim : s.factory.reclaimCodec codec = some f') (t : CodecType) :
    made t ⟨f', s.held.erase (client, codec)⟩ =
        stored t ⟨f', s.held.erase (client, codec)⟩ + inUse t ⟨f', s.held.erase (client, codec)⟩ ∧
      made t ⟨f', s.held.erase (client, codec)⟩ =
        max (s.made t) (inUse t ⟨f', s.held.erase (client, codec)⟩) := by
  obtain ⟨type, htype, rfl⟩ := Option.map_eq_some_iff.mp hreclaim
  have hcounted := h.2 t
  have huse : s.inUse t = (s.held.erase (client, codec)).countP (fun held => s.factory.type held.2 = some t) +
      if type = t then 1 else 0 := by
    rw [inUse, (List.perm_cons_erase hheld).countP_eq, List.countP_cons, htype]
    simp
  have hpool : ((s.factory.setPool type (s.factory.m_pool type ++ [codec])).m_pool t).length =
      (s.factory.m_pool t).length + if type = t then 1 else 0 := by
    by_cases ht : type = t
    · subst ht
      rw [m_pool_setPool_self, List.length_append, if_pos rfl]
      rfl
    · rw [m_pool_setPool_of_ne (Ne.symm ht), if_neg ht, Nat.add_zero]
  rw [made, stored] at hcounted
  rw [made, stored, made, inUse, type_setPool, created_setPool, hpool]
  dsimp only
  omega

/-- **Every call** keeps the codecs counted, and raises the number made to the number in use. -/
theorem Counted.step (h : Counted s) {call : PoolCall γ} (hs : step s call = some s') :
    Counted s' ∧ ∀ t, s'.made t = max (s.made t) (s'.inUse t) := by
  suffices hcounts : ∀ t, s'.made t = s'.stored t + s'.inUse t ∧ s'.made t = max (s.made t) (s'.inUse t) from
    ⟨⟨h.1.step hs, fun t => (hcounts t).1⟩, fun t => (hcounts t).2⟩
  intro t
  cases call with
  | acquireFromType client type =>
      obtain ⟨⟨codec, f'⟩, hacquire, rfl⟩ := Option.map_eq_some_iff.mp hs
      exact h.acquire client hacquire t
  | acquireFromData client encoded =>
      obtain ⟨⟨codec, f'⟩, hacquire, rfl⟩ := Option.map_eq_some_iff.mp hs
      unfold acquireFromData at hacquire
      split at hacquire
      · obtain ⟨⟨codec, f'⟩, hpng, heq⟩ := Option.map_eq_some_iff.mp hacquire
        cases heq
        exact h.acquire client hpng t
      · split at hacquire
        · obtain ⟨⟨codec, f'⟩, hjpg, heq⟩ := Option.map_eq_some_iff.mp hacquire
          cases heq
          exact h.acquire client hjpg t
        · -- no codec accepts the bytes: nothing is made and nothing handed out
          cases hacquire
          have hcounted := h.2 t
          simp only [Option.map_none, Option.toList_none, List.append_nil]
          refine ⟨hcounted, (Nat.max_eq_left ?_).symm⟩
          exact hcounted ▸ Nat.le_add_left _ _
  | reclaimCodec client codec =>
      obtain ⟨hheld, hs⟩ := Option.ite_none_right_eq_some.mp hs
      obtain ⟨f', hreclaim, rfl⟩ := Option.map_eq_some_iff.mp hs
      exact h.reclaim hheld hreclaim t

/-- **There are never more codecs than were needed at once**: after any calls of any number of clients, as many codecs
of a type exist as clients have held at most at the same time. -/
theorem made_eq_highest {calls : List (PoolCall γ)} (h : run step start calls = some s) (t : CodecType) :
    s.made t = highest step (inUse t) start calls := by
  have hstart : Counted (start : PoolState γ) := ⟨inv_start, fun t => rfl⟩
  rw [run_highest (fun s call s' hinv hs => (Counted.step hinv hs).1)
    (fun s call s' hinv hs => (Counted.step hinv hs).2 t) hstart (Nat.le_refl _) h]
  exact Nat.max_eq_right (Nat.zero_le _)

/-- Two clients with a codec each at the same time, and one after them. -/
def threeClients : List (PoolCall Nat) :=
  [.acquireFromType 0 .kPng, .acquireFromType 1 .kPng, .reclaimCodec 0 0, .reclaimCodec 1 1, .acquireFromType 2 .kPng]

theorem threeClients_made : ∃ s, run step start threeClients = some s ∧
    s.made .kPng = highest step (inUse .kPng) start threeClients :=
  ⟨_, rfl, made_eq_highest rfl .kPng⟩

end PoolState

end LimbWorker.Image
