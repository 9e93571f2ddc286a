import LimbWorker.Lib.Logged
import LimbWorker.MediaRepository.ClientPool

/-!
# The life of a `MongoClient`

A client owns a URI and a pool. `init` makes both and gives them up again when the server does not answer;
`destroyMongoClient`, which is the destructor too, destroys what is there. In between come requests, which take a client
from the pool and give it back.

Nothing stops a caller from using the functions in any order. `destroyed_iff` says which orders are safe: `init` must
not find an object left from before, which one that could not make its pool leaves behind, and `ping` needs a pool.
-/

namespace LimbWorker.MediaRepository

open Lib

/-- An object of the driver that a `MongoClient` keeps, by its number, or the null pointer. -/
inductive Kept where
  | uri (k : Nat)
  | pool (k : Nat)
  | null
  deriving DecidableEq, Repr

/-- A pool has a copy of its URI. -/
def Kept.line : Kept → List Kept := fun _ => []

/-- `m_uri` and `m_cPool`, and how many objects were made so far. -/
structure MongoClient where
  m_uri : Option Nat
  m_cPool : Option Nat
  made : Nat
  deriving DecidableEq, Repr

/-- A call of a member function, with the answers of the driver. -/
inductive MemberCall (Oid Metadata : Type) where
  | init (uriNew poolNew poolPop commandSimple : Bool)
  | destroyMongoClient
  | request (request : Request Oid Metadata)

namespace MongoClient

/-- The constructor. -/
def new : MongoClient := ⟨none, none, 0⟩

/-- `m_cPool`, as an argument of a function of the driver. -/
def pool (c : MongoClient) : Kept := c.m_cPool.elim .null .pool

/-- `destroyMongoClient`. -/
def destroyMongoClient (c : MongoClient) : MongoClient × List (Life Kept) :=
  ({ c with m_cPool := none, m_uri := none },
    c.m_cPool.toList.map (fun k => .destroy (.pool k)) ++ c.m_uri.toList.map fun k => .destroy (.uri k))

/-- What a call does with the pool: it takes a client, and gives it back if it got one. -/
def poolUses (c : MongoClient) (calls : List (Life DriverObject)) : List (Life Kept) :=
  .use c.pool :: (calls.filter (· = .destroy .client)).map fun _ => .use c.pool

/-- `init`. -/
def init (c : MongoClient) (uriNew poolNew poolPop commandSimple : Bool) :
    Option (ReturnStatus × MongoClient × List (Life Kept)) :=
  if uriNew = false then some (.kInvalidInput, { c with m_uri := none }, [])
  else
    let uri := c.made
    let c := { c with m_uri := some uri, made := uri + 1 }
    let calls := [.create (.uri uri), .use (.uri uri), .use (.uri uri)]
    if poolNew = false then some (.kUninitialized, { c with m_cPool := none }, calls)
    else
      let pool := c.made
      let c := { c with m_cPool := some pool, made := pool + 1 }
      let calls := calls ++ [.create (.pool pool)]
      (pingCalls poolPop commandSimple).map fun (ret, ping) =>
        let calls := calls ++ c.poolUses ping
        if ret ≠ .kOk then (.kAborted, c.destroyMongoClient.1, calls ++ c.destroyMongoClient.2)
        else (.kOk, c, calls)

section Calls

variable {Oid Metadata : Type} (bson_oid_init_from_string : String → Oid)

/-- Whether a request comes as far as taking a client. `ping` does not look whether there is a pool. -/
def pops : Request Oid Metadata → Bool
  | .ping _ _ => true
  | .getImageById env _ _ size => size = 24 ∧ env.cPool = true
  | .updateImageById env _ _ size _ => size = 24 ∧ env.cPool = true

/-- What a request finds in `m_cPool` is what is there. -/
def Finds (c : MongoClient) : Request Oid Metadata → Prop
  | .ping _ _ => True
  | .getImageById env _ _ _ => env.cPool = c.m_cPool.isSome
  | .updateImageById env _ _ _ _ => env.cPool = c.m_cPool.isSome

instance (c : MongoClient) (request : Request Oid Metadata) : Decidable (c.Finds request) := by
  cases request <;> unfold Finds <;> infer_instance

/-- One call: the client afterwards, and what happens to the objects it keeps. -/
def perform (c : MongoClient) : MemberCall Oid Metadata → Option (MongoClient × List (Life Kept))
  | .init uriNew poolNew poolPop commandSimple => (c.init uriNew poolNew poolPop commandSimple).map Prod.snd
  | .destroyMongoClient => some c.destroyMongoClient
  | .request request =>
      if c.Finds request then
        (request.calls bson_oid_init_from_string).map fun calls =>
          (c, if pops request then c.poolUses calls else [])
      else none

/-- One step. -/
def step (c : MongoClient) (call : MemberCall Oid Metadata) : Option MongoClient :=
  (c.perform bson_oid_init_from_string call).map Prod.fst

/-- What happens in it. -/
def events (c : MongoClient) (call : MemberCall Oid Metadata) : List (Life Kept) :=
  ((c.perform bson_oid_init_from_string call).map Prod.snd).getD []

/-- `init` finds nothing left from before, and `ping` finds a pool. -/
def Proper (c : MongoClient) : MemberCall Oid Metadata → Prop
  | .init _ _ _ _ => c.m_uri = none
  | .request (.ping _ _) => c.m_cPool.isSome
  | _ => True

end Calls

/-- What the client keeps. -/
def kept (c : MongoClient) : List Kept := c.m_cPool.toList.map .pool ++ c.m_uri.toList.map .uri

@[simp] theorem mem_kept {c : MongoClient} {r : Kept} :
    r ∈ c.kept ↔ (∃ k, c.m_cPool = some k ∧ .pool k = r) ∨ ∃ k, c.m_uri = some k ∧ .uri k = r := by
  simp [kept]

/-! ## What is alive -/

/-- The living objects are known: what the client keeps is among them, and every number was given out. A pool without
a URI has cost a URI. -/
structure Owns (c : MongoClient) (live : List Kept) : Prop where
  kept : ∀ r ∈ c.kept, r ∈ live
  uri : ∀ k, .uri k ∈ live → k < c.made
  pool : ∀ k, .pool k ∈ live → k < c.made
  null : .null ∉ live
  nodup : live.Nodup
  hidden : c.m_uri = none → c.m_cPool.isSome → ∃ r ∈ live, r ∉ c.kept

/-- Nothing is alive but what the client keeps. -/
def Tidy (c : MongoClient) (live : List Kept) : Prop := ∀ r ∈ live, r ∈ c.kept

variable {c c' : MongoClient} {live live' : List Kept}

theorem owns_new : Owns new [] where
  kept := by simp [new]
  uri := fun _ h => by cases h
  pool := fun _ h => by cases h
  null := List.not_mem_nil
  nodup := List.nodup_nil
  hidden := fun _ h => by cases h

/-- Using what is alive changes nothing. -/
theorem run_uses {r : Kept} {calls : List (Life Kept)} (hr : r ∈ live) (hcalls : ∀ e ∈ calls, e = .use r) :
    run (Life.step Kept.line) live calls = some live := by
  induction calls with
  | nil => rfl
  | cons e calls ih =>
      rw [run_cons, hcalls e List.mem_cons_self, Life.step_use hr (fun p hp => by cases hp), Option.bind_some]
      exact ih fun e' he' => hcalls e' (List.mem_cons_of_mem e he')

/-- What a call does with a pool that is there. -/
theorem run_poolUses {k : Nat} (hpool : c.m_cPool = some k) (hk : .pool k ∈ live)
    (calls : List (Life DriverObject)) : run (Life.step Kept.line) live (c.poolUses calls) = some live := by
  have hr : c.pool = .pool k := by rw [pool, hpool]; rfl
  refine run_uses (r := .pool k) hk fun e he => ?_
  rw [poolUses, hr] at he
  rcases List.mem_cons.mp he with rfl | he
  · rfl
  · obtain ⟨-, -, rfl⟩ := List.mem_map.mp he
    rfl

/-- **Destroying** takes what the client keeps from what is alive. -/
theorem run_destroyMongoClient (hkept : ∀ r ∈ c.kept, r ∈ live) (hnodup : live.Nodup) :
    ∃ live', run (Life.step Kept.line) live c.destroyMongoClient.2 = some live' ∧ live'.Nodup ∧
      ∀ r, r ∈ live' ↔ r ∈ live ∧ r ∉ c.kept := by
  obtain ⟨m_uri, m_cPool, made⟩ := c
  have hline : ∀ (r : Kept) (live : List Kept), ∀ p ∈ Kept.line r, p ∈ live := fun _ _ p hp => by cases hp
  have hpool : ∃ between, run (Life.step Kept.line) live (m_cPool.toList.map fun k => .destroy (.pool k)) =
      some between ∧ between.Nodup ∧ ∀ r, r ∈ between ↔ r ∈ live ∧ ∀ k ∈ m_cPool, .pool k ≠ r := by
    cases m_cPool with
    | none => exact ⟨live, rfl, hnodup, by simp⟩
    | some k =>
        have hk : .pool k ∈ live := hkept _ (by simp)
        refine ⟨live.erase (.pool k), run_cons_of (Life.step_destroy hk (hline _ _)), hnodup.erase _, fun r => ?_⟩
        rw [hnodup.mem_erase_iff]
        simp [and_comm, eq_comm]
  -- the pool goes first, then the URI
  obtain ⟨between, hrun, hbetween, hmem⟩ := hpool
  cases m_uri with
  | none =>
      refine ⟨between, ?_, hbetween, fun r => ?_⟩
      · simpa [destroyMongoClient] using hrun
      · rw [hmem]
        simp
  | some k =>
      have hk : .uri k ∈ between := (hmem _).mpr ⟨hkept _ (by simp), by simp⟩
      refine ⟨between.erase (.uri k), run_trans hrun (run_cons_of (Life.step_destroy hk (hline _ _))),
        hbetween.erase _, fun r => ?_⟩
      rw [hbetween.mem_erase_iff, hmem]
      simp [eq_comm]
      tauto

/-- What `init` leaves in the client: a URI and a pool that it has made itself, or no URI and the pool of before. -/
structure Renewed (c c' : MongoClient) : Prop where
  made : c.made ≤ c'.made
  uri : ∀ k, c'.m_uri = some k → c.made ≤ k ∧ k < c'.made
  pool : ∀ k, c'.m_cPool = some k →
    (c.made ≤ k ∧ k < c'.made ∧ c'.m_uri ≠ none) ∨ c'.m_uri = none ∧ c.m_cPool = some k

theorem renewed_init {uriNew poolNew poolPop commandSimple : Bool} {ret : ReturnStatus} {calls : List (Life Kept)}
    (hinit : c.init uriNew poolNew poolPop commandSimple = some (ret, c', calls)) : Renewed c c' := by
  unfold init at hinit
  split at hinit
  · cases hinit
    exact ⟨Nat.le_refl _, fun k hk => (by cases hk), fun k hk => .inr ⟨rfl, hk⟩⟩
  split at hinit
  · cases hinit
    refine ⟨Nat.le_succ _, fun k hk => ?_, fun k hk => (by cases hk)⟩
    cases hk
    exact ⟨Nat.le_refl _, Nat.lt_succ_self _⟩
  obtain ⟨⟨ret', ping⟩, -, hping⟩ := Option.map_eq_some_iff.mp hinit
  dsimp only at hping
  split at hping
  · cases hping
    exact ⟨Nat.le_add_right _ 2, fun k hk => (by cases hk), fun k hk => (by cases hk)⟩
  · cases hping
    refine ⟨Nat.le_add_right _ 2, fun k hk => ?_, fun k hk => ?_⟩
    · cases hk
      exact ⟨Nat.le_refl _, show c.made < c.made + 1 + 1 by omega⟩
    · cases hk
      exact .inl ⟨Nat.le_succ _, Nat.lt_succ_self _, fun hnone => by cases hnone⟩

/-- **Initialising** adds what the client keeps afterwards to what is alive. -/
theorem run_init {uriNew poolNew poolPop commandSimple : Bool} {ret : ReturnStatus} {calls : List (Life Kept)}
    (h : Owns c live) (hinit : c.init uriNew poolNew poolPop commandSimple = some (ret, c', calls)) :
    ∃ live', run (Life.step Kept.line) live calls = some live' ∧ live'.Nodup ∧
      ∀ r, r ∈ live' ↔ r ∈ live ∨ r ∈ c'.kept := by
  have hline : ∀ (r : Kept) (live : List Kept), ∀ p ∈ Kept.line r, p ∈ live := fun _ _ p hp => by cases hp
  have huri : .uri c.made ∉ live := fun hmem => Nat.lt_irrefl _ (h.uri _ hmem)
  -- the URI is made, and used twice
  have hmake : run (Life.step Kept.line) live
      [.create (.uri c.made), .use (.uri c.made), .use (.uri c.made)] = some (.uri c.made :: live) := by
    rw [run_cons, Life.step_create huri (hline _ _), Option.bind_some]
    exact run_uses List.mem_cons_self (by simp)
  unfold init at hinit
  split at hinit
  · cases hinit
    refine ⟨live, rfl, h.nodup, fun r => ?_⟩
    -- no URI was made: the client keeps at most the pool it had
    refine (or_iff_left_of_imp fun hr => h.kept r ?_).symm
    simp only [mem_kept, reduceCtorEq, false_and, exists_false, or_false] at hr
    exact mem_kept.mpr (.inl hr)
  split at hinit
  · cases hinit
    refine ⟨_, hmake, h.nodup.cons huri, fun r => ?_⟩
    simp [eq_comm, or_comm]
  obtain ⟨⟨ret', ping⟩, -, hping⟩ := Option.map_eq_some_iff.mp hinit
  -- the pool is made, and answers or not
  have hpool : .pool (c.made + 1) ∉ .uri c.made :: live := by
    intro hmem
    have hlt := h.pool _ ((List.mem_cons.mp hmem).resolve_left (by simp))
    omega
  have hboth := run_trans hmake (run_cons_of (Life.step_create hpool (hline _ _)))
  have hnodup := (h.nodup.cons huri).cons hpool
  dsimp only at hping
  generalize hc₂ : (⟨some c.made, some (c.made + 1), c.made + 1 + 1⟩ : MongoClient) = c₂ at hping
  have hused := run_trans hboth (run_poolUses (c := c₂) (by rw [← hc₂]) List.mem_cons_self ping)
  split at hping
  · cases hping
    -- no answer: both are destroyed again
    obtain ⟨live', hrun, hnodup', hmem⟩ := run_destroyMongoClient (c := c₂)
      (by rw [← hc₂]; simp [kept]) hnodup
    refine ⟨live', run_trans hused hrun, hnodup', fun r => ?_⟩
    have hempty : r ∉ c₂.destroyMongoClient.1.kept := by simp [destroyMongoClient]
    have hkept : r ∈ c₂.kept ↔ r = .pool (c.made + 1) ∨ r = .uri c.made := by
      rw [← hc₂]
      simp [eq_comm]
    rw [hmem, or_iff_left hempty, hkept, List.mem_cons, List.mem_cons]
    constructor
    · rintro ⟨hr, hnot⟩
      tauto
    · intro hr
      refine ⟨.inr (.inr hr), ?_⟩
      rintro (rfl | rfl)
      · exact hpool (List.mem_cons_of_mem _ hr)
      · exact huri hr
  · cases hping
    subst hc₂
    refine ⟨_, hused, hnodup, fun r => ?_⟩
    simp [eq_comm]
    tauto

/-- What was alive and is kept now is the pool of before. -/
theorem Renewed.mem_kept_of_live (h : Renewed c c') (howns : Owns c live) {r : Kept} (hr : r ∈ live)
    (hkept : r ∈ c'.kept) : r ∈ c.kept := by
  rcases mem_kept.mp hkept with ⟨k, hk, rfl⟩ | ⟨k, hk, rfl⟩
  · rcases h.pool k hk with ⟨hfresh, -⟩ | ⟨-, hk'⟩
    · exact absurd (howns.pool k hr) (Nat.not_lt.mpr hfresh)
    · exact mem_kept.mpr (.inl ⟨k, hk', rfl⟩)
  · exact absurd (howns.uri k hr) (Nat.not_lt.mpr (h.uri k hk).1)

/-- A URI of before is alive, and not kept any more. -/
theorem Renewed.uri_lost (h : Renewed c c') (howns : Owns c live) {u : Nat} (hu : c.m_uri = some u) :
    .uri u ∈ live ∧ .uri u ∉ c'.kept := by
  have hmem : .uri u ∈ live := howns.kept _ (mem_kept.mpr (.inr ⟨u, hu, rfl⟩))
  refine ⟨hmem, fun hkept => ?_⟩
  rcases mem_kept.mp hkept with ⟨k, -, heq⟩ | ⟨k, hk, heq⟩
  · cases heq
  · cases heq
    exact absurd (howns.uri u hmem) (Nat.not_lt.mpr (h.uri u hk).1)

theorem Owns.renewed (howns : Owns c live) (h : Renewed c c') (hnodup : live'.Nodup)
    (hmem : ∀ r, r ∈ live' ↔ r ∈ live ∨ r ∈ c'.kept) : Owns c' live' := by
  have hold : ∀ r ∈ live, r ∈ live' := fun r hr => (hmem r).mpr (.inl hr)
  refine ⟨fun r hr => (hmem r).mpr (.inr hr), fun k hk => ?_, fun k hk => ?_, fun hnull => ?_, hnodup,
    fun hnone hsome => ?_⟩
  · rcases (hmem _).mp hk with hk | hk
    · exact Nat.lt_of_lt_of_le (howns.uri k hk) h.made
    · rcases mem_kept.mp hk with ⟨k', -, heq⟩ | ⟨k', hk', heq⟩
      · cases heq
      · cases heq
        exact (h.uri k hk').2
  · rcases (hmem _).mp hk with hk | hk
    · exact Nat.lt_of_lt_of_le (howns.pool k hk) h.made
    · rcases mem_kept.mp hk with ⟨k', hk', heq⟩ | ⟨k', -, heq⟩
      · cases heq
        rcases h.pool k hk' with ⟨-, hlt, -⟩ | ⟨-, hold⟩
        · exact hlt
        · exact Nat.lt_of_lt_of_le (howns.pool k (howns.kept _ (mem_kept.mpr (.inl ⟨k, hold, rfl⟩)))) h.made
      · cases heq
  · rcases (hmem _).mp hnull with hnull | hnull
    · exact howns.null hnull
    · rcases mem_kept.mp hnull with ⟨_, -, heq⟩ | ⟨_, -, heq⟩ <;> cases heq
  · obtain ⟨k, hk⟩ := Option.isSome_iff_exists.mp hsome
    -- a client with a pool and no URI has lost a URI: in this call, or before it
    cases hu : c.m_uri with
    | some u => exact ⟨.uri u, hold _ (h.uri_lost howns hu).1, (h.uri_lost howns hu).2⟩
    | none =>
        rcases h.pool k hk with ⟨-, -, hne⟩ | ⟨-, hk'⟩
        · exact absurd hnone hne
        · obtain ⟨r, hr, hnot⟩ := howns.hidden hu (by rw [hk']; rfl)
          exact ⟨r, hold r hr, fun hkept => hnot (h.mem_kept_of_live howns hr hkept)⟩

/-- Nothing else is alive just when nothing else was, and there was no URI. -/
theorem Owns.tidy_renewed (howns : Owns c live) (h : Renewed c c')
    (hmem : ∀ r, r ∈ live' ↔ r ∈ live ∨ r ∈ c'.kept) : c'.Tidy live' ↔ c.Tidy live ∧ c.m_uri = none := by
  have hold : ∀ r ∈ live, r ∈ live' := fun r hr => (hmem r).mpr (.inl hr)
  refine ⟨fun htidy => ⟨fun r hr => h.mem_kept_of_live howns hr (htidy r (hold r hr)), ?_⟩,
    fun ⟨htidy, hnone⟩ r hr => ?_⟩
  · cases hu : c.m_uri with
    | none => rfl
    | some u => exact absurd (htidy _ (hold _ (h.uri_lost howns hu).1)) (h.uri_lost howns hu).2
  · rcases (hmem r).mp hr with hr | hr
    · -- nothing was alive
      have hnopool : c.m_cPool = none := by
        by_contra hsome
        obtain ⟨r, hr, hnot⟩ := howns.hidden hnone (Option.isSome_iff_ne_none.mpr hsome)
        exact hnot (htidy r hr)
      rcases mem_kept.mp (htidy r hr) with ⟨k, hk, -⟩ | ⟨k, hk, -⟩
      · rw [hnopool] at hk
        cases hk
      · rw [hnone] at hk
        cases hk
    · exact hr

/-- `init` keeps what is known, and leaves nothing else alive just when nothing was and it found no URI. -/
theorem Owns.init {uriNew poolNew poolPop commandSimple : Bool} {ret : ReturnStatus} {calls : List (Life Kept)}
    (h : Owns c live) (hinit : c.init uriNew poolNew poolPop commandSimple = some (ret, c', calls)) :
    ∃ live', run (Life.step Kept.line) live calls = some live' ∧ Owns c' live' ∧
      (c'.Tidy live' ↔ c.Tidy live ∧ c.m_uri = none) := by
  have hnew := renewed_init hinit
  obtain ⟨live', hrun, hnodup, hmem⟩ := run_init h hinit
  exact ⟨live', hrun, h.renewed hnew hnodup hmem, h.tidy_renewed hnew hmem⟩

/-- Afterwards nothing is kept. -/
theorem Owns.destroyMongoClient (h : Owns c live) :
    ∃ live', run (Life.step Kept.line) live c.destroyMongoClient.2 = some live' ∧
      Owns c.destroyMongoClient.1 live' ∧ (c.Tidy live ↔ live' = []) := by
  obtain ⟨live', hrun, hnodup, hmem⟩ := run_destroyMongoClient h.kept h.nodup
  refine ⟨live', hrun, ⟨fun r hr => ?_, fun k hk => h.uri k ((hmem _).mp hk).1,
    fun k hk => h.pool k ((hmem _).mp hk).1, fun hnull => h.null ((hmem _).mp hnull).1, hnodup,
    fun _ hsome => (by cases hsome)⟩, fun htidy => ?_, fun hnil r hr => ?_⟩
  · simp [MongoClient.destroyMongoClient] at hr
  · refine List.eq_nil_iff_forall_not_mem.mpr fun r hr => ?_
    exact ((hmem r).mp hr).2 (htidy r ((hmem r).mp hr).1)
  · by_contra hnot
    have hmem' := (hmem r).mpr ⟨hr, hnot⟩
    rw [hnil] at hmem'
    cases hmem'

section Life

variable {Oid Metadata : Type} {bson_oid_init_from_string : String → Oid} {call : MemberCall Oid Metadata}

/-- **A call** touches only what is alive, unless it is a `ping` without a pool; and nothing but what the client keeps is
alive after it just when that was so before it and it was no `init` that found a URI. -/
theorem run_events (h : Owns c live) (hs : c.step bson_oid_init_from_string call = some c') :
    (run (Life.step Kept.line) live (c.events bson_oid_init_from_string call) = none ∧
        ¬ c.Proper call) ∨
      ∃ live', run (Life.step Kept.line) live (c.events bson_oid_init_from_string call) = some live' ∧
        Owns c' live' ∧ (c'.Tidy live' ↔ c.Tidy live ∧ c.Proper call) := by
  obtain ⟨⟨c₁, calls⟩, hperform, rfl⟩ := Option.map_eq_some_iff.mp hs
  have hevents : c.events bson_oid_init_from_string call = calls := by rw [events, hperform]; rfl
  rw [hevents]
  cases call with
  | init uriNew poolNew poolPop commandSimple =>
      obtain ⟨⟨ret, result⟩, hinit, rfl⟩ := Option.map_eq_some_iff.mp hperform
      exact .inr (h.init hinit)
  | destroyMongoClient =>
      cases hperform
      obtain ⟨live', hrun, howns, htidy⟩ := h.destroyMongoClient
      -- a client that keeps nothing is tidy only if nothing is left
      refine .inr ⟨live', hrun, howns, fun htidy' => ⟨htidy.mpr ?_, trivial⟩, fun hproper r hr => ?_⟩
      · refine List.eq_nil_iff_forall_not_mem.mpr fun r hr => ?_
        have hkept := htidy' r hr
        simp at hkept
      · rw [htidy.mp hproper.1] at hr
        cases hr
  | request request =>
      obtain ⟨hfinds, hperform⟩ := Option.ite_none_right_eq_some.mp hperform
      obtain ⟨requestCalls, hcalls, heq⟩ := Option.map_eq_some_iff.mp hperform
      obtain ⟨rfl, rfl⟩ := Prod.mk.inj heq
      cases hpool : c.m_cPool with
      | some k =>
          have hproper : c.Proper (.request request : MemberCall Oid Metadata) := by
            cases request <;> simp [Proper, hpool]
          -- the pool is there while it is used
          refine .inr ⟨live, ?_, h, (and_iff_left hproper).symm⟩
          split
          · exact run_poolUses hpool (h.kept _ (mem_kept.mpr (.inl ⟨k, hpool, rfl⟩))) _
          · rfl
      | none =>
          cases request with
          | ping poolPop commandSimple =>
              -- `ping` does not look: it pops from a pool that is not there
              refine .inl ⟨?_, by simp [Proper, hpool]⟩
              have hnull : c.pool = .null := by rw [pool, hpool]; rfl
              rw [if_pos (show pops (Request.ping poolPop commandSimple : Request Oid Metadata) = true from rfl),
                poolUses, hnull, run_cons, Life.step, if_neg fun halive => h.null halive.1]
              rfl
          | getImageById env store id size | updateImageById env store id size filedata =>
              -- it looks first, and there is no pool
              have hnone : env.cPool = false := by rw [show env.cPool = c.m_cPool.isSome from hfinds, hpool]; rfl
              refine .inr ⟨live, ?_, h, (and_iff_left trivial).symm⟩
              rw [if_neg (by simp [pops, hnone])]
              rfl

/-- The log so far, if it is in order, has left objects that are known. -/
def LogInv (c : MongoClient) (log : List (Life Kept)) : Prop :=
  ∀ live, run (Life.step Kept.line) [] log = some live → Owns c live

/-- The log so far is in order, and nothing is alive but what the client keeps. -/
def InOrder (c : MongoClient) (log : List (Life Kept)) : Prop :=
  ∃ live, run (Life.step Kept.line) [] log = some live ∧ c.Tidy live

theorem LogInv.step {log : List (Life Kept)} (h : LogInv c log) (hs : c.step bson_oid_init_from_string call = some c') :
    LogInv c' (log ++ c.events bson_oid_init_from_string call) ∧
      (InOrder c' (log ++ c.events bson_oid_init_from_string call) ↔ InOrder c log ∧ c.Proper call) := by
  simp only [LogInv, InOrder, run_append]
  cases hrun : run (Life.step Kept.line) [] log with
  | none => simp
  | some live =>
      simp only [Option.bind_some, Option.some.injEq, exists_eq_left']
      rcases run_events (h live hrun) hs with ⟨hnone, himproper⟩ | ⟨live', hsome, howns, htidy⟩
      · simp [hnone, himproper]
      · rw [hsome]
        refine ⟨fun live'' heq => ?_, ?_⟩
        · cases heq
          exact howns
        · simpa using htidy

/-- **When the life of a client leaves nothing behind**: in every sequence of calls, whatever the driver answers, all objects
are made, used and destroyed in order, and none is left when the client is destroyed, just when `init` never found a
URI left from before, and `ping` was never called without a pool. -/
theorem destroyed_iff {calls : List (MemberCall Oid Metadata)} {log : List (Life Kept)}
    (h : run (logged (step bson_oid_init_from_string) (events bson_oid_init_from_string)) (new, []) calls =
      some (c, log)) :
    run (Life.step Kept.line) [] (log ++ c.destroyMongoClient.2) = some [] ↔
      Guarded (step bson_oid_init_from_string) Proper new calls := by
  have h₀ : LogInv new [] := by
    intro live hlive
    cases hlive
    exact owns_new
  have hstep : ∀ (p : MongoClient × List (Life Kept)) (call : MemberCall Oid Metadata) p', LogInv p.1 p.2 →
      logged (step bson_oid_init_from_string) (events bson_oid_init_from_string) p call = some p' →
        LogInv p'.1 p'.2 ∧ (InOrder p'.1 p'.2 ↔ InOrder p.1 p.2 ∧ p.1.Proper call) := by
    rintro ⟨c, log⟩ call ⟨c', log'⟩ hinv hs
    obtain ⟨hs₁, rfl⟩ := logged_eq_some hs
    exact hinv.step hs₁
  have hkeep := fun p call p' hinv hs => (hstep p call p' hinv hs).1
  have hiff := guarded_iff (G := fun p call => p.1.Proper call) hkeep
    (fun p call p' hinv hs => (hstep p call p' hinv hs).2) h₀ h
  have hend := run_invariant hkeep h₀ h
  have hempty : InOrder new [] := ⟨[], rfl, fun r hr => by cases hr⟩
  rw [and_iff_right hempty, guarded_logged] at hiff
  rw [← hiff, InOrder, run_append]
  -- the destructor leaves nothing just when nothing else was alive
  cases hrun : run (Life.step Kept.line) [] log with
  | none => simp
  | some live =>
      obtain ⟨live', hdestroyed, -, htidy⟩ := (hend live hrun).destroyMongoClient
      rw [Option.bind_some, hdestroyed, Option.some.injEq, ← htidy]
      simp

/-- A client that is made, asked once, destroyed and made again. -/
theorem destroyed_pinged : ∃ c log, run (logged (step fun _ => ()) (events fun _ => ())) (new, [])
      ([.init true true true true, .request (.ping true true), .destroyMongoClient, .init true true true true] :
        List (MemberCall Unit Unit)) = some (c, log) ∧
    (run (Life.step Kept.line) [] (log ++ c.destroyMongoClient.2) = some [] ↔
      Guarded (step fun _ => ()) Proper new
        ([.init true true true true, .request (.ping true true), .destroyMongoClient, .init true true true true] :
          List (MemberCall Unit Unit))) :=
  ⟨_, _, rfl, destroyed_iff rfl⟩

end Life

end MongoClient

end LimbWorker.MediaRepository
