import LimbWorker.Image.Codec
import LimbWorker.Lib.StepSystem
import Mathlib.Data.List.Count
import Mathlib.Logic.Function.Basic

/-!
# The pool of codecs

`CodecFactory` hands out codecs and keeps those that come back, one vector for each type. A codec carries the
state of its library, so no two requests may hold one codec at a time.

Clients are any number of requests; each call is atomic under `m_pool_mtx`, and a client gives back what it
holds. Then every codec that was ever made is in exactly one place: in one client's hands, or once in the
vector of its own type.
-/

namespace LimbWorker.Image

open Lib

/-- A codec object; they are numbered as they are made, and never deleted. -/
abbrev CodecId := Nat

/-- `CodecFactory`. The back of a vector is the end of the list; `created` are the types of the codecs that
were made, by number. -/
structure CodecFactory where
  m_pool : CodecType → List CodecId
  created : List CodecType

namespace CodecFactory

def empty : CodecFactory := ⟨fun _ => [], []⟩

/-- `codec->type()`. -/
def type (f : CodecFactory) (codec : CodecId) : Option CodecType := f.created[codec]?

/-- The vector of a type changes. -/
def setPool (f : CodecFactory) (type : CodecType) (poolEntry : List CodecId) : CodecFactory :=
  { f with m_pool := Function.update f.m_pool type poolEntry }

/-- `acquireFromType`; `none` stands for indexing `m_pool` past its end. -/
def acquireFromType (f : CodecFactory) (type : CodecType) : Option (CodecId × CodecFactory) :=
  if type = .Count then none
  else
    match (f.m_pool type).getLast? with
    | some codec => some (codec, f.setPool type (f.m_pool type).dropLast)
    | none => some (f.created.length, { f with created := f.created ++ [type] })

/-- `acquireFromData`; the codec is null where neither type can decode the data. -/
def acquireFromData (f : CodecFactory) (encoded : Bytes) :
    Option (Option CodecId × CodecFactory) :=
  if PngCodec.canDecode encoded then
    (f.acquireFromType .kPng).map fun (codec, f) => (some codec, f)
  else if JpgCodec.canDecode encoded then
    (f.acquireFromType .kJpg).map fun (codec, f) => (some codec, f)
  else some (none, f)

/-- `_reclaimCodec`; `none` stands for a pointer to no codec. -/
def reclaimCodec (f : CodecFactory) (codec : CodecId) : Option CodecFactory :=
  (f.type codec).map fun type => f.setPool type (f.m_pool type ++ [codec])

end CodecFactory

/-! ## Clients -/

/-- The factory, and who holds which codec. -/
structure PoolState (γ : Type) where
  factory : CodecFactory
  held : List (γ × CodecId)

/-- A call of a client. -/
inductive PoolCall (γ : Type) where
  | acquireFromType (client : γ) (type : CodecType)
  | acquireFromData (client : γ) (encoded : Bytes)
  | reclaimCodec (client : γ) (codec : CodecId)

namespace PoolState

variable {γ : Type} [DecidableEq γ]

/-- Nobody has asked for a codec yet. -/
def start : PoolState γ := ⟨.empty, []⟩

/-- Execute one call; a client can give back only what it holds. -/
def step (s : PoolState γ) : PoolCall γ → Option (PoolState γ)
  | .acquireFromType client type =>
      (s.factory.acquireFromType type).map fun (codec, factory) =>
        ⟨factory, s.held ++ [(client, codec)]⟩
  | .acquireFromData client encoded =>
      (s.factory.acquireFromData encoded).map fun (codec, factory) =>
        ⟨factory, s.held ++ (codec.map fun codec => (client, codec)).toList⟩
  | .reclaimCodec client codec =>
      if (client, codec) ∈ s.held then
        (s.factory.reclaimCodec codec).map fun factory => ⟨factory, s.held.erase (client, codec)⟩
      else none

/-- Exactly one client holds the codec, and it is in no vector. -/
def HeldByOne (s : PoolState γ) (codec : CodecId) : Prop :=
  (∃ client, s.held.filter (·.2 = codec) = [(client, codec)]) ∧
    ∀ type, codec ∉ s.factory.m_pool type

/-- The codec is once in the vector of its type, in no other, and nobody holds it. -/
def InPool (s : PoolState γ) (codec : CodecId) : Prop :=
  (∀ client, (client, codec) ∉ s.held) ∧ ∃ type, s.factory.type codec = some type ∧
    (s.factory.m_pool type).count codec = 1 ∧
      ∀ type', type' ≠ type → codec ∉ s.factory.m_pool type'

/-- What the pool guarantees in a state: every codec that was made is in exactly one place, and what is handed
out next is of the right type. -/
structure Safe (s : PoolState γ) : Prop where
  one_place : ∀ codec, codec < s.factory.created.length → s.HeldByOne codec ∨ s.InPool codec
  reclaims : ∀ client codec, (client, codec) ∈ s.held → s.factory.reclaimCodec codec ≠ none
  fromType : ∀ type, type ≠ .Count → ∃ codec factory,
    s.factory.acquireFromType type = some (codec, factory) ∧ factory.type codec = some type
  fromData : ∀ encoded, ∃ codec factory, s.factory.acquireFromData encoded = some (codec, factory) ∧
    (codec ≠ none ↔ HasPngSignature encoded ∨ HasJpegMarkers encoded) ∧
    ∀ id, codec = some id → ∃ type, factory.type id = some type ∧ type.canDecode encoded = true

end PoolState

/-! ## The factory -/

namespace CodecFactory

variable {f f' : CodecFactory} {codec : CodecId} {type' : CodecType}

@[simp] theorem created_setPool (l : List CodecId) : (f.setPool type' l).created = f.created := rfl

@[simp] theorem type_setPool (l : List CodecId) : (f.setPool type' l).type = f.type := rfl

@[simp] theorem m_pool_setPool_self (l : List CodecId) : (f.setPool type' l).m_pool type' = l :=
  Function.update_self _ _ _

theorem m_pool_setPool_of_ne {type : CodecType} (h : type ≠ type') (l : List CodecId) :
    (f.setPool type' l).m_pool type = f.m_pool type :=
  Function.update_of_ne h _ _

/-- A codec counts once for itself. -/
theorem ite_beq (codec id : Nat) : (if codec == id then 1 else 0) = if id = codec then 1 else 0 := by
  by_cases h : id = codec
  · simp [h]
  · simp [h, Ne.symm h]

/-- How often a codec is in the vectors. -/
def pooled (f : CodecFactory) (codec : CodecId) : Nat :=
  (f.m_pool .kPng).count codec + (f.m_pool .kJpg).count codec

/-- Changing the vector of a type changes the count by what comes in and goes out. -/
theorem pooled_setPool (htype : type' ≠ .Count) (l : List CodecId) (codec : CodecId) :
    (f.setPool type' l).pooled codec + (f.m_pool type').count codec =
      f.pooled codec + l.count codec := by
  cases type' with
  | kPng =>
      have hother : (f.setPool .kPng l).m_pool .kJpg = f.m_pool .kJpg :=
        m_pool_setPool_of_ne (by decide) l
      simp only [pooled, m_pool_setPool_self, hother]
      omega
  | kJpg =>
      have hother : (f.setPool .kJpg l).m_pool .kPng = f.m_pool .kPng :=
        m_pool_setPool_of_ne (by decide) l
      simp only [pooled, m_pool_setPool_self, hother]
      omega
  | Count => exact absurd rfl htype

/-- Codecs are filed under their own type. -/
structure Filed (f : CodecFactory) : Prop where
  type_ne : ∀ type ∈ f.created, type ≠ .Count
  filed : ∀ type, ∀ codec ∈ f.m_pool type, f.type codec = some type

theorem filed_empty : Filed empty where
  type_ne := fun _ h => by cases h
  filed := fun _ _ h => by cases h

theorem type_eq_some_lt {type : CodecType} (h : f.type codec = some type) :
    codec < f.created.length :=
  (List.getElem?_eq_some_iff.mp h).1

theorem Filed.type_ne_of_eq (h : Filed f) {type : CodecType} (htype : f.type codec = some type) :
    type ≠ .Count :=
  h.type_ne type (List.mem_of_getElem? htype)

/-- Where a vector holds codecs of its type afterwards, everything is still filed. -/
theorem Filed.setPool (h : Filed f) {l : List CodecId}
    (hl : ∀ codec ∈ l, f.type codec = some type') : Filed (f.setPool type' l) := by
  refine ⟨h.type_ne, fun type codec hcodec => ?_⟩
  by_cases heq : type = type'
  · subst heq
    rw [m_pool_setPool_self] at hcodec
    exact hl codec hcodec
  · rw [m_pool_setPool_of_ne heq] at hcodec
    exact h.filed type codec hcodec

/-- Making a codec leaves the types of the others. -/
theorem type_create {type : CodecType} (h : f.type codec = some type) :
    ({ f with created := f.created ++ [type'] } : CodecFactory).type codec = some type := by
  show (f.created ++ [_])[codec]? = some type
  rw [List.getElem?_append_left (type_eq_some_lt h)]
  exact h

theorem Filed.create (h : Filed f) (htype : type' ≠ .Count) :
    Filed { f with created := f.created ++ [type'] } := by
  refine ⟨fun type hmem => ?_, fun type codec hcodec => type_create (h.filed type codec hcodec)⟩
  rcases List.mem_append.mp hmem with hold | hnew
  · exact h.type_ne type hold
  · exact List.mem_singleton.mp hnew ▸ htype

/-- What a client gets from `f`, which is `f'` afterwards: a codec of the type it asked for. It was in the
vectors once more than it is now, or it is new. -/
structure Acquired (f : CodecFactory) (type' : CodecType) (codec : CodecId) (f' : CodecFactory) :
    Prop where
  filed : Filed f'
  type_eq : f'.type codec = some type'
  types : ∀ id type, f.type id = some type → f'.type id = some type
  length_le : f.created.length ≤ f'.created.length
  pooled : ∀ id : Nat, f'.pooled id + (if id = codec then 1 else 0) =
    f.pooled id + if f.created.length ≤ id ∧ id < f'.created.length then 1 else 0

/-- **Acquiring**: a codec leaves the back of its vector, or a new one is made. -/
theorem acquireFromType_spec (h : Filed f) (htype : type' ≠ .Count) :
    ∃ codec f', f.acquireFromType type' = some (codec, f') ∧ Acquired f type' codec f' := by
  unfold acquireFromType
  rw [if_neg htype]
  -- a new codec for an empty pool, else the last of the pool
  rcases List.eq_nil_or_concat (f.m_pool type') with hnil | ⟨rest, codec, heq⟩
  · rw [hnil]
    refine ⟨_, _, rfl, h.create htype, by simp [type], fun _ _ => type_create, by simp, fun id => ?_⟩
    by_cases hid : id = f.created.length
    · simp [hid, CodecFactory.pooled]
    · have hout : ¬ (f.created.length ≤ id ∧ id < f.created.length + 1) := by omega
      simp only [List.length_append, List.length_singleton, if_neg hid, if_neg hout, Nat.add_zero]
      rfl
  · rw [List.concat_eq_append] at heq
    have hfiled : ∀ id ∈ f.m_pool type', f.type id = some type' := fun id => h.filed type' id
    simp only [heq, List.getLast?_append, List.getLast?_singleton, Option.some_or, List.dropLast_concat]
    refine ⟨codec, _, rfl, h.setPool fun id hid => hfiled id (by simp [heq, hid]),
      hfiled codec (by simp [heq]), fun _ _ hid => hid, Nat.le_refl _, fun id => ?_⟩
    have hcount := pooled_setPool (f := f) htype rest id
    rw [heq, List.count_append, List.count_singleton, ite_beq] at hcount
    have hout : ¬ (f.created.length ≤ id ∧ id < f.created.length) := fun h => Nat.not_lt.mpr h.1 h.2
    simp only [created_setPool, hout, if_false]
    omega

/-- **Acquiring for a file**: a codec that can decode it where there is one, and null otherwise. -/
theorem acquireFromData_spec (h : Filed f) (encoded : Bytes) :
    (∃ type codec f', type ≠ .Count ∧ type.canDecode encoded = true ∧
        f.acquireFromData encoded = some (some codec, f') ∧ Acquired f type codec f') ∨
      PngCodec.canDecode encoded = false ∧ JpgCodec.canDecode encoded = false ∧
        f.acquireFromData encoded = some (none, f) := by
  unfold acquireFromData
  split
  · next hpng =>
    obtain ⟨codec, f', hacquire, hspec⟩ := acquireFromType_spec h (show CodecType.kPng ≠ .Count by decide)
    exact .inl ⟨.kPng, codec, f', by decide, hpng, by rw [hacquire]; rfl, hspec⟩
  · next hpng =>
    split
    · next hjpg =>
      obtain ⟨codec, f', hacquire, hspec⟩ := acquireFromType_spec h (show CodecType.kJpg ≠ .Count by decide)
      exact .inl ⟨.kJpg, codec, f', by decide, hjpg, by rw [hacquire]; rfl, hspec⟩
    · next hjpg => exact .inr ⟨by simpa using hpng, by simpa using hjpg, rfl⟩

/-- **Giving back**: the codec joins the vector of its type. -/
theorem reclaimCodec_spec (h : Filed f) (hlt : codec < f.created.length) :
    ∃ f', f.reclaimCodec codec = some f' ∧ Filed f' ∧ f'.created = f.created ∧
      ∀ id : Nat, f'.pooled id = f.pooled id + if id = codec then 1 else 0 := by
  have htype : f.type codec = some f.created[codec] := List.getElem?_eq_getElem hlt
  refine ⟨f.setPool f.created[codec] (f.m_pool f.created[codec] ++ [codec]), ?_, ?_, rfl, fun id => ?_⟩
  · rw [reclaimCodec, htype]
    rfl
  · refine h.setPool fun id hid => ?_
    rcases List.mem_append.mp hid with hold | hnew
    · exact h.filed _ id hold
    · exact List.mem_singleton.mp hnew ▸ htype
  · have hcount := pooled_setPool (f := f) (h.type_ne_of_eq htype)
      (f.m_pool f.created[codec] ++ [codec]) id
    rw [List.count_append, List.count_singleton, ite_beq] at hcount
    omega

end CodecFactory

/-! ## Every run -/

namespace PoolState

open CodecFactory

variable {γ : Type} [DecidableEq γ] {s s' : PoolState γ}

/-- Every codec that was made is in one place, and nothing else is anywhere. -/
structure Inv (s : PoolState γ) : Prop where
  filed : Filed s.factory
  once : ∀ id : Nat, (s.held.map Prod.snd).count id + s.factory.pooled id =
    if id < s.factory.created.length then 1 else 0

omit [DecidableEq γ] in
theorem inv_start : Inv (start : PoolState γ) := ⟨filed_empty, fun _ => rfl⟩

omit [DecidableEq γ] in
/-- One more held codec counts for itself. -/
theorem count_held_append (held : List (γ × CodecId)) (client : γ) (codec : CodecId) (id : Nat) :
    ((held ++ [(client, codec)]).map Prod.snd).count id =
      (held.map Prod.snd).count id + if id = codec then 1 else 0 := by
  rw [List.map_append, List.count_append, List.map_singleton, List.count_singleton, ite_beq]

omit [DecidableEq γ] in
/-- A client that gets a codec. -/
theorem Inv.acquire (h : Inv s) {type : CodecType} {codec : CodecId} {f' : CodecFactory} (client : γ)
    (hacquired : Acquired s.factory type codec f') : Inv ⟨f', s.held ++ [(client, codec)]⟩ := by
  refine ⟨hacquired.filed, fun id => ?_⟩
  have hle := hacquired.length_le
  have hmade : (if id < s.factory.created.length then 1 else 0) +
      (if s.factory.created.length ≤ id ∧ id < f'.created.length then 1 else 0) =
        if id < f'.created.length then 1 else 0 := by
    by_cases hold : id < s.factory.created.length
    · simp only [hold, Nat.not_le.mpr hold, Nat.lt_of_lt_of_le hold hle, false_and, if_true, if_false]
    · simp only [hold, Nat.not_lt.mp hold, true_and, if_false, Nat.zero_add]
  calc ((s.held ++ [(client, codec)]).map Prod.snd).count id + f'.pooled id
      = (s.held.map Prod.snd).count id + (f'.pooled id + if id = codec then 1 else 0) := by
        rw [count_held_append]
        omega
    _ = (s.held.map Prod.snd).count id + s.factory.pooled id +
          if s.factory.created.length ≤ id ∧ id < f'.created.length then 1 else 0 := by
        rw [hacquired.pooled id, Nat.add_assoc]
    _ = if id < f'.created.length then 1 else 0 := by rw [h.once id, hmade]

omit [DecidableEq γ] in
/-- A held codec exists. -/
theorem Inv.lt_of_held (h : Inv s) {client : γ} {codec : CodecId} (hheld : (client, codec) ∈ s.held) :
    codec < s.factory.created.length := by
  have hpos : 0 < (s.held.map Prod.snd).count codec :=
    List.count_pos_iff.mpr (List.mem_map_of_mem (f := Prod.snd) hheld)
  have honce := h.once codec
  by_contra hge
  rw [if_neg hge] at honce
  omega

omit [DecidableEq γ] in
/-- A codec that a client gets is in no vector any more. -/
theorem Inv.pooled_acquired (h : Inv s) {type : CodecType} {codec : CodecId} {f' : CodecFactory}
    (hacquired : Acquired s.factory type codec f') : f'.pooled codec = 0 := by
  have honce := h.once codec
  have hpooled := hacquired.pooled codec
  rw [if_pos rfl] at hpooled
  by_cases hold : codec < s.factory.created.length
  · rw [if_neg fun hnew => Nat.not_lt.mpr hnew.1 hold] at hpooled
    rw [if_pos hold] at honce
    omega
  · rw [if_neg hold] at honce
    split at hpooled <;> omega

/-- **Every call keeps it.** -/
theorem Inv.step (h : Inv s) {call : PoolCall γ} (hs : step s call = some s') : Inv s' := by
  cases call with
  | acquireFromType client type =>
      obtain ⟨⟨codec, f'⟩, hacquire, rfl⟩ := Option.map_eq_some_iff.mp hs
      by_cases htype : type = .Count
      · -- the number of types is not a type: the array is read out of bounds
        subst htype
        cases hacquire
      · obtain ⟨codec', f'', hacquire', hspec⟩ := acquireFromType_spec h.filed htype
        rw [hacquire] at hacquire'
        cases hacquire'
        exact h.acquire client hspec
  | acquireFromData client encoded =>
      obtain ⟨⟨codec, f'⟩, hacquire, rfl⟩ := Option.map_eq_some_iff.mp hs
      -- a codec is acquired, or none accepts the bytes
      rcases acquireFromData_spec h.filed encoded with
        ⟨type, codec', f'', -, -, hacquire', hspec⟩ | ⟨-, -, hacquire'⟩
      · rw [hacquire] at hacquire'
        cases hacquire'
        exact h.acquire client hspec
      · rw [hacquire] at hacquire'
        cases hacquire'
        simpa using h
  | reclaimCodec client codec =>
      simp only [PoolState.step] at hs
      split at hs
      · next hheld =>
        obtain ⟨f', hreclaim, rfl⟩ := Option.map_eq_some_iff.mp hs
        obtain ⟨f'', hreclaim', hfiled, hcreated, hpooled⟩ :=
          reclaimCodec_spec h.filed (h.lt_of_held hheld)
        rw [hreclaim] at hreclaim'
        cases hreclaim'
        -- the codec moves from the client to the pool, so it is counted once as before
        have hperm := ((List.perm_cons_erase hheld).map Prod.snd).count_eq
        refine ⟨hfiled, fun id => ?_⟩
        have honce := h.once id
        rw [hperm id, List.map_cons, List.count_cons, ite_beq] at honce
        rw [hpooled id, hcreated, ← honce]
        dsimp only
        omega
      · cases hs

omit [DecidableEq γ] in
/-- The vector past the codec types is empty. -/
theorem Inv.m_pool_Count (h : Inv s) (codec : CodecId) : codec ∉ s.factory.m_pool .Count :=
  fun hmem => h.filed.type_ne_of_eq (h.filed.filed .Count codec hmem) rfl

omit [DecidableEq γ] in
theorem Inv.heldByOne (h : Inv s) {codec : CodecId} (hheld : (s.held.map Prod.snd).count codec = 1)
    (hpool : s.factory.pooled codec = 0) : s.HeldByOne codec := by
  have hlength : (s.held.filter (·.2 = codec)).length = 1 := by
    rw [← hheld, List.count, List.countP_map, ← List.countP_eq_length_filter]
    exact List.countP_congr fun e _ => by simp
  obtain ⟨⟨client, codec'⟩, heq⟩ := List.length_eq_one_iff.mp hlength
  have hmem : (client, codec') ∈ s.held.filter (·.2 = codec) := heq ▸ List.mem_singleton_self _
  obtain rfl : codec' = codec := by simpa using (List.mem_filter.mp hmem).2
  refine ⟨⟨client, heq⟩, fun type => ?_⟩
  have hnone := Nat.add_eq_zero_iff.mp hpool
  cases type with
  | kPng => exact List.count_eq_zero.mp hnone.1
  | kJpg => exact List.count_eq_zero.mp hnone.2
  | Count => exact h.m_pool_Count codec'

omit [DecidableEq γ] in
theorem Inv.inPool (h : Inv s) {codec : CodecId} (hheld : (s.held.map Prod.snd).count codec = 0)
    (hpool : s.factory.pooled codec = 1) : s.InPool codec := by
  refine ⟨fun client hmem => ?_, ?_⟩
  · exact List.count_eq_zero.mp hheld (List.mem_map_of_mem (f := Prod.snd) hmem)
  · rcases Nat.add_eq_one_iff.mp hpool with ⟨hpng, hjpg⟩ | ⟨hpng, hjpg⟩
    · have hmem : codec ∈ s.factory.m_pool .kJpg := List.count_pos_iff.mp (by omega)
      refine ⟨.kJpg, h.filed.filed _ _ hmem, hjpg, fun type hne => ?_⟩
      cases type with
      | kPng => exact List.count_eq_zero.mp hpng
      | kJpg => exact absurd rfl hne
      | Count => exact h.m_pool_Count codec
    · have hmem : codec ∈ s.factory.m_pool .kPng := List.count_pos_iff.mp (by omega)
      refine ⟨.kPng, h.filed.filed _ _ hmem, hpng, fun type hne => ?_⟩
      cases type with
      | kPng => exact absurd rfl hne
      | kJpg => exact List.count_eq_zero.mp hjpg
      | Count => exact h.m_pool_Count codec

omit [DecidableEq γ] in
/-- What the invariant says of a state. -/
theorem Inv.safe (h : Inv s) : Safe s where
  one_place codec hlt := by
    have honce := h.once codec
    rw [if_pos hlt] at honce
    -- counted once in all: in one pool or with one client
    rcases Nat.add_eq_one_iff.mp honce with ⟨hheld, hpool⟩ | ⟨hheld, hpool⟩
    · exact .inr (h.inPool hheld hpool)
    · exact .inl (h.heldByOne hheld hpool)
  reclaims client codec hheld := by
    obtain ⟨f', hreclaim, -⟩ := reclaimCodec_spec h.filed (h.lt_of_held hheld)
    simp [hreclaim]
  fromType type htype := by
    obtain ⟨codec, f', hacquire, hspec⟩ := acquireFromType_spec h.filed htype
    exact ⟨codec, f', hacquire, hspec.type_eq⟩
  fromData encoded := by
    rw [← PngCodec.canDecode_iff, ← JpgCodec.canDecode_iff]
    rcases acquireFromData_spec h.filed encoded with
      ⟨type, codec, f', -, hdecode, hacquire, hspec⟩ | ⟨hpng, hjpg, hacquire⟩
    · refine ⟨some codec, f', hacquire, iff_of_true (by simp) ?_, fun id hid => ?_⟩
      · cases type with
        | kPng => exact .inl hdecode
        | kJpg => exact .inr hdecode
        | Count => cases hdecode
      · cases hid
        exact ⟨type, hspec.type_eq, hdecode⟩
    · exact ⟨none, s.factory, hacquire, iff_of_false (by simp) (by simp [hpng, hjpg]),
        fun _ hid => by cases hid⟩

/-- **The pool is safe** in every state of every run: for any number of clients, and every sequence of their
calls. -/
theorem pool_safe (calls : List (PoolCall γ)) : Throughout step Safe (start : PoolState γ) calls :=
  throughout_of_invariant (I := Inv) (fun _ _ _ h hs => h.step hs) (fun _ h => h.safe) inv_start

end PoolState

end LimbWorker.Image
