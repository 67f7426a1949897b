import Mathlib.Data.Set.Card
import Payroll.Proofs.Registry.Store

/-!
# Histories of stores

What a store has under a key, how often it was asked and how much it holds follow from the accesses
since it was made. The last access that decides on a key counts: a payslip that succeeded and was
inserted under an equal key stays until it is replaced or removed.
-/

set_option autoImplicit false

namespace Payroll.ResultCache

inductive Access where
  | get (key : Key)
  | insert (key : Key) (payslip : Payslip)
  | invalidate (key : Key)
  | clear

namespace Access

def isGet : Access → Bool
  | get _ => true
  | _ => false

/-- Whether an access replaces or removes what is stored for keys of an identity. -/
def Decides (i : Key.Identity) : Access → Prop
  | get _ => False
  | insert key payslip => payslip.succeeded = true ∧ key.identity = i
  | invalidate key => key.identity = i
  | clear => True

end Access

def access (s : ResultCache) : Access → ResultCache
  | .get key => (s.get key).2
  | .insert key payslip => s.insert key payslip
  | .invalidate key => s.invalidate key
  | .clear => s.clear

def after (s : ResultCache) (history : List Access) : ResultCache := history.foldl access s

def answers (s : ResultCache) : List Access → List (Option Payslip)
  | [] => []
  | .get key :: rest => (s.get key).1 :: (s.access (.get key)).answers rest
  | a :: rest => (s.access a).answers rest

/-- The last access that decides on keys of an identity has inserted the payslip. -/
def Stored (history : List Access) (i : Key.Identity) (p : Payslip) : Prop :=
  ∃ before key later, history = before ++ .insert key p :: later ∧
    (Access.insert key p).Decides i ∧ ∀ a ∈ later, ¬a.Decides i

def live (history : List Access) : Set Key.Identity := {i | ∃ p, Stored history i p}

/-- A store shows the last insertions of a history and counts its lookups. -/
structure Reflects (s : ResultCache) (history : List Access) : Prop where
  found : ∀ key p, ((s.after history).get key).1 = some p ↔ Stored history key.identity p
  /-- A failed payslip replaces nothing and removes nothing. -/
  failed : ∀ key p, p.succeeded = false → (s.after history).insert key p = s.after history
  hits : (s.after history).stats.hits = (s.answers history).countP Option.isSome
  lookups : (s.after history).stats.hits + (s.after history).stats.misses =
    history.countP Access.isGet
  /-- Only lookups count. -/
  counters : ∀ a : Access, a.isGet = false →
    ((s.after history).access a).stats.hits = (s.after history).stats.hits ∧
      ((s.after history).access a).stats.misses = (s.after history).stats.misses
  entries : ((s.after history).stats.entries : ℕ∞) = (live history).encard

section
variable {past : List Access} {a : Access} {i : Key.Identity} {p : Payslip}

theorem not_stored_nil : ¬Stored [] i p := by
  rintro ⟨before, key, later, h, -⟩
  exact List.append_ne_nil_of_right_ne_nil before (List.cons_ne_nil _ _) h.symm

theorem stored_concat_of_decides (h : a.Decides i) :
    Stored (past ++ [a]) i p ↔ ∃ key, a = .insert key p := by
  constructor
  · rintro ⟨before, key, later, heq, -, hlater⟩
    rcases List.eq_nil_or_concat later with rfl | ⟨later, b, rfl⟩
    · exact ⟨key, (List.append_inj' heq rfl).2 |> List.singleton_inj.mp⟩
    · -- The last access would be one that does not decide.
      rw [List.concat_eq_append, ← List.cons_append, ← List.append_assoc] at heq
      obtain rfl : a = b := List.singleton_inj.mp (List.append_inj' heq rfl).2
      exact absurd h (hlater a (by simp))
  · rintro ⟨key, rfl⟩
    exact ⟨past, key, [], rfl, h, List.forall_mem_nil _⟩

theorem stored_concat_of_not_decides (h : ¬a.Decides i) :
    Stored (past ++ [a]) i p ↔ Stored past i p := by
  constructor
  · rintro ⟨before, key, later, heq, hinsert, hlater⟩
    rcases List.eq_nil_or_concat later with rfl | ⟨later, b, rfl⟩
    · obtain rfl : a = .insert key p := List.singleton_inj.mp (List.append_inj' heq rfl).2
      exact absurd hinsert h
    · rw [List.concat_eq_append, ← List.cons_append, ← List.append_assoc] at heq
      refine ⟨before, key, later, (List.append_inj' heq rfl).1, hinsert, fun c hc => ?_⟩
      exact hlater c (by simp [hc])
  · rintro ⟨before, key, later, rfl, hinsert, hlater⟩
    refine ⟨before, key, later ++ [a], by simp, hinsert, fun c hc => ?_⟩
    rcases List.mem_append.mp hc with hc | hc
    · exact hlater c hc
    · rw [List.mem_singleton.mp hc]
      exact h

end

section
variable {s : ResultCache} {a : Access} {key : Key}

theorem find?_access_of_not_decides (h : ¬a.Decides key.identity) :
    (s.access a).find? key = s.find? key := by
  cases a with
  | get k => exact find?_get s k key
  | insert k p =>
    cases hp : p.succeeded with
    | false => exact congrArg (find? · key) (insert_of_failed hp s k)
    | true => exact find?_insert_of_ne fun hk => h ⟨hp, hk⟩
  | invalidate k => exact find?_invalidate_of_ne h
  | clear => exact absurd trivial h

theorem find?_access_of_decides (hkeeps : s.keeps = true) (h : a.Decides key.identity)
    {p : Payslip} : (s.access a).find? key = some p ↔ ∃ k, a = .insert k p := by
  cases a with
  | get k => exact absurd h id
  | insert k q =>
    have hfind : (s.access (.insert k q)).find? key = some q :=
      find?_insert_of_identity hkeeps h.1 h.2
    rw [hfind]
    constructor
    · intro heq
      exact ⟨k, congrArg _ (Option.some.inj heq)⟩
    · rintro ⟨k', heq⟩
      cases heq
      rfl
  | invalidate k =>
    have hfind : (s.access (.invalidate k)).find? key = none := find?_invalidate_of_identity h
    rw [hfind]
    exact iff_of_false nofun nofun
  | clear =>
    have hfind : (s.access .clear).find? key = none := find?_clear s key
    rw [hfind]
    exact iff_of_false nofun nofun

theorem keeps_access (s : ResultCache) (a : Access) : (s.access a).keeps = s.keeps := by
  cases a with
  | get k => exact keeps_get s k
  | insert k p => exact keeps_insert s k p
  | invalidate k => rfl
  | clear => rfl

theorem IsMap.access (hs : s.IsMap) (a : Access) : (s.access a).IsMap := by
  cases a with
  | get k => exact hs.of_sublist (entries_get s k ▸ List.Sublist.refl _)
  | insert k p => exact hs.insert k p
  | invalidate k => exact hs.invalidate k
  | clear => exact hs.of_sublist (List.nil_sublist _)

end

/-- What a history of accesses keeps. -/
structure Mirrors (history : List Access) (s : ResultCache) : Prop where
  keeps : s.keeps = true
  isMap : s.IsMap
  found : ∀ key p, s.find? key = some p ↔ Stored history key.identity p

theorem mirrors_nil {s : ResultCache} (hkeeps : s.keeps = true) (hentries : s.entries = []) :
    Mirrors [] s := by
  refine ⟨hkeeps, ?_, fun key p => iff_of_false ?_ not_stored_nil⟩
  · unfold IsMap
    rw [hentries]
    exact List.nodup_nil
  · unfold find?
    rw [hentries]
    exact nofun

theorem Mirrors.access {past : List Access} {s : ResultCache} (hs : Mirrors past s) (a : Access) :
    Mirrors (past ++ [a]) (s.access a) := by
  refine ⟨(keeps_access s a).trans hs.keeps, hs.isMap.access a, fun key p => ?_⟩
  by_cases h : a.Decides key.identity
  · rw [find?_access_of_decides hs.keeps h, stored_concat_of_decides h]
  · rw [find?_access_of_not_decides h, stored_concat_of_not_decides h]
    exact hs.found key p

theorem Mirrors.after {past : List Access} {s : ResultCache} (hs : Mirrors past s)
    (history : List Access) : Mirrors (past ++ history) (s.after history) := by
  induction history generalizing past s with
  | nil => rwa [List.append_nil]
  | cons a rest ih =>
    have hrest := ih (hs.access a)
    rwa [List.append_assoc] at hrest

theorem counters_access {a : Access} (h : a.isGet = false) (s : ResultCache) :
    (s.access a).hits = s.hits ∧ (s.access a).misses = s.misses := by
  cases a with
  | get k => cases h
  | insert k p =>
    unfold access insert
    dsimp only
    split <;> exact ⟨rfl, rfl⟩
  | invalidate k => exact ⟨rfl, rfl⟩
  | clear => exact ⟨rfl, rfl⟩

theorem exists_get {a : Access} (h : a.isGet = true) : ∃ key, a = .get key := by
  cases a with
  | get key => exact ⟨key, rfl⟩
  | insert k p => cases h
  | invalidate k => cases h
  | clear => cases h

theorem answers_cons {a : Access} (h : a.isGet = false) (s : ResultCache) (rest : List Access) :
    s.answers (a :: rest) = (s.access a).answers rest := by
  cases a with
  | get k => cases h
  | insert k p => rfl
  | invalidate k => rfl
  | clear => rfl

theorem counters_get (s : ResultCache) (key : Key) :
    ((s.get key).2.hits = s.hits + if (s.get key).1.isSome then 1 else 0) ∧
      (s.get key).2.hits + (s.get key).2.misses = s.hits + s.misses + 1 := by
  unfold get
  cases s.find? key with
  | none => exact ⟨rfl, rfl⟩
  | some p => exact ⟨rfl, Nat.succ_add _ _⟩

theorem hits_after (s : ResultCache) (history : List Access) :
    (s.after history).hits = s.hits + (s.answers history).countP Option.isSome := by
  induction history generalizing s with
  | nil => rfl
  | cons a rest ih =>
    have hrest : (s.after (a :: rest)).hits = _ := ih (s.access a)
    rw [hrest]
    cases hget : a.isGet with
    | false => rw [answers_cons hget, (counters_access hget s).1]
    | true =>
      obtain ⟨key, rfl⟩ := exists_get hget
      have hstep : (s.access (.get key)).hits = _ := (counters_get s key).1
      rw [answers, List.countP_cons, hstep]
      omega

theorem lookups_after (s : ResultCache) (history : List Access) :
    (s.after history).hits + (s.after history).misses =
      s.hits + s.misses + history.countP Access.isGet := by
  induction history generalizing s with
  | nil => rfl
  | cons a rest ih =>
    have hrest : (s.after (a :: rest)).hits + (s.after (a :: rest)).misses = _ := ih (s.access a)
    rw [hrest]
    cases hget : a.isGet with
    | false =>
      obtain ⟨hhits, hmisses⟩ := counters_access hget s
      rw [hhits, hmisses, List.countP_cons_of_neg (by rw [hget]; exact Bool.false_ne_true)]
    | true =>
      obtain ⟨key, rfl⟩ := exists_get hget
      have hstep : (s.access (.get key)).hits + (s.access (.get key)).misses = _ :=
        (counters_get s key).2
      rw [List.countP_cons_of_pos hget, hstep]
      omega

theorem Mirrors.live_eq {history : List Access} {s : ResultCache} (hs : Mirrors history s) :
    live history = {i | i ∈ s.entries.map (·.1.identity)} := by
  ext i
  constructor
  · rintro ⟨p, hp⟩
    obtain ⟨-, key, -, -, ⟨-, rfl⟩, -⟩ := id hp
    obtain ⟨k, hk, hsame⟩ := find?_eq_some ((hs.found key p).mpr hp)
    exact List.mem_map.mpr ⟨(k, p), hk, hsame⟩
  · intro hi
    obtain ⟨⟨k, p⟩, he, rfl⟩ := List.mem_map.mp hi
    obtain ⟨q, hq⟩ := exists_find?_of_mem he
    exact ⟨q, (hs.found k q).mp hq⟩

theorem Mirrors.encard_live {history : List Access} {s : ResultCache} (hs : Mirrors history s) :
    (live history).encard = s.entries.length := by
  classical
  have hlist : live history = ((s.entries.map (·.1.identity)).toFinset : Set Key.Identity) := by
    rw [hs.live_eq, List.coe_toFinset]
  rw [hlist, Set.encard_coe_eq_coe_finsetCard, List.toFinset_card_of_nodup hs.isMap,
    List.length_map]

/-- A store that keeps what it gets refines a finite map with two counters. -/
theorem reflects_of_settings {settings : CacheSettings} {s : ResultCache}
    (hs : ofSettings settings = .ok s) (hlife : settings.ttlSeconds ≠ 0)
    (hroom : settings.maxCapacity ≠ 0) (history : List Access) : s.Reflects history := by
  have hnew : s = {} := by
    unfold ofSettings at hs
    split at hs
    · cases hs
    · cases hs
      simp [hlife, hroom]
  subst hnew
  have hmirrors : Mirrors history (after {} history) := (mirrors_nil rfl rfl).after history
  refine ⟨fun key p => ?_, fun key p hp => insert_of_failed hp _ key, ?_, ?_, ?_, ?_⟩
  · rw [get_fst]
    exact hmirrors.found key p
  · exact (hits_after {} history).trans (Nat.zero_add _)
  · exact (lookups_after {} history).trans (Nat.zero_add _)
  · exact fun a ha => counters_access ha _
  · exact hmirrors.encard_live.symm

def keyOfSales (sales : Decimal) : Key :=
  { employeeId := "e1", planId := some "p1", sales := some sales, period := "2024-01" }

def eight : Decimal := (Decimal.ofParts? 8 0).getD .zero

def eightInCents : Decimal := (Decimal.ofParts? 800 2).getD .zero

def eightPayslip : Payslip := { employeeId := "e1", period := "2024-01", succeeded := true }

def eightHistory : List Access :=
  [.get (keyOfSales eight), .insert (keyOfSales eight) eightPayslip,
    .insert (keyOfSales eightInCents) { eightPayslip with succeeded := false },
    .invalidate { keyOfSales eight with planId := none, sales := none },
    .get (keyOfSales eightInCents)]

theorem reflects_eightHistory :
    ofSettings {} = .ok {} ∧ ({} : CacheSettings).ttlSeconds ≠ 0 ∧
      ({} : CacheSettings).maxCapacity ≠ 0 ∧ Reflects {} eightHistory ∧
        Stored eightHistory (keyOfSales eightInCents).identity eightPayslip := by
  have hs : ofSettings {} = .ok {} := rfl
  have hreflects := reflects_of_settings hs (by decide) (by decide) eightHistory
  refine ⟨hs, by decide, by decide, hreflects, ?_⟩
  exact (hreflects.found _ _).mp rfl

end Payroll.ResultCache
