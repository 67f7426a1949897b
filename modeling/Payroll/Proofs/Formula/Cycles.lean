import Mathlib.Data.Finset.Card
import Mathlib.Data.List.Chain
import Mathlib.Logic.Relation
import Payroll.Proofs.Formula.Findings

/-!
# Circular dependencies are found

The search of a review reports a loop exactly if the results of a formula depend on each other in a
circle. `Explores` is the search without any bound on its depth; it always ends, and no deeper than
the search of a review goes. The names that it leaves behind are accessible along dependencies, and
the names on its path are a walk, so that a name that is met again closes a loop.
-/

set_option autoImplicit false

namespace Payroll

section
variable {α : Type} {r : α → α → Prop}

/-- A walk from one element back to it that meets no other element twice. -/
def IsLoop (r : α → α → Prop) (path : List α) : Prop :=
  ∃ first between, path = first :: (between ++ [first]) ∧ (first :: between).Nodup ∧
    path.IsChain r

theorem transGen_of_isChain {a b : α} {between : List α}
    (h : (a :: (between ++ [b])).IsChain r) : Relation.TransGen r a b := by
  induction between generalizing a with
  | nil => exact .single (List.isChain_pair.mp h)
  | cons c rest ih =>
    rw [List.cons_append, List.isChain_cons_cons] at h
    exact .head h.1 (ih h.2)

theorem IsLoop.exists_transGen {path : List α} (h : IsLoop r path) :
    ∃ a, Relation.TransGen r a a := by
  obtain ⟨first, between, rfl, -, hchain⟩ := h
  exact ⟨first, transGen_of_isChain hchain⟩

theorem exists_next_of_isChain {path : List α} {a last : α} (h : (path ++ [last]).IsChain r)
    (ha : a ∈ path) : ∃ b ∈ path ++ [last], r a b := by
  induction path with
  | nil => cases ha
  | cons first rest ih =>
    rcases List.mem_cons.mp ha with rfl | ha
    · cases rest with
      | nil => exact ⟨last, by simp, List.isChain_pair.mp h⟩
      | cons second rest => exact ⟨second, by simp, (List.isChain_cons_cons.mp h).1⟩
    · obtain ⟨b, hb, hab⟩ := ih h.tail ha
      exact ⟨b, List.mem_cons_of_mem first hb, hab⟩

theorem IsLoop.exists_next {path : List α} (h : IsLoop r path) {a : α} (ha : a ∈ path) :
    ∃ b ∈ path, r a b := by
  obtain ⟨first, between, rfl, -, hchain⟩ := h
  rw [← List.cons_append] at hchain ha ⊢
  have ha : a ∈ first :: between := by
    simp only [List.mem_append, List.mem_cons, List.not_mem_nil, or_false] at ha ⊢
    tauto
  exact exists_next_of_isChain hchain ha

theorem IsLoop.reverse {path : List α} (h : IsLoop r path) :
    IsLoop (Function.swap r) path.reverse := by
  obtain ⟨first, between, rfl, hnodup, hchain⟩ := h
  refine ⟨first, between.reverse, by simp, ?_, ?_⟩
  · simpa using hnodup
  · rw [List.isChain_reverse]
    exact hchain

theorem IsLoop.exists_previous {path : List α} (h : IsLoop r path) {b : α} (hb : b ∈ path) :
    ∃ a ∈ path, r a b := by
  obtain ⟨a, ha, hab⟩ := h.reverse.exists_next (List.mem_reverse.mpr hb)
  exact ⟨a, List.mem_reverse.mp ha, hab⟩

theorem IsLoop.mono {s : α → α → Prop} {path : List α} (hrs : ∀ a b, r a b → s a b)
    (h : IsLoop r path) : IsLoop s path := by
  obtain ⟨first, between, rfl, hnodup, hchain⟩ := h
  exact ⟨first, between, rfl, hnodup, hchain.imp hrs⟩

theorem not_transGen_self {a : α} (h : Acc (Function.swap r) a) : ¬Relation.TransGen r a a := by
  intro hloop
  rw [← Relation.transGen_swap] at hloop
  have hacc := h.transGen
  induction hacc with
  | intro b _ ih => exact ih b hloop (h.inv_of_transGen hloop) hloop

end

inductive Operation.Mentions (name : String) : Operation → Prop
  | reference : Mentions name (.reference name)
  | parameter {op : Operator} {ps : List Parameter} (h : .reference name ∈ ps) :
    Mentions name (.apply op ps)
  | nested {op : Operator} {ps : List Parameter} {heading : Heading} {o : Operation}
    (h : .step heading o ∈ ps) (ho : Mentions name o) : Mentions name (.apply op ps)

section
variable {name : String}

theorem mem_referencesOf {ps : List Parameter} :
    name ∈ referencesOf ps ↔ ∃ p ∈ ps, name ∈ p.references := by
  induction ps with
  | nil => simp [referencesOf]
  | cons p rest ih => simp [referencesOf, ih]

mutual
theorem Operation.mentions_of_mem : (o : Operation) → name ∈ o.references → o.Mentions name
  | .literal _ => fun h => by cases h
  | .reference other => fun h => by
    rw [List.mem_singleton.mp h]
    exact .reference
  | .apply op ps => fun h => mentions_of_mem_referencesOf op ps ps (fun _ hp => hp) h
theorem Parameter.mentions_of_mem {op : Operator} {ps : List Parameter} : (p : Parameter) →
    p ∈ ps → name ∈ p.references → (Operation.apply op ps).Mentions name
  | .literal _ => fun _ h => by cases h
  | .reference other => fun hp h => by
    rw [← List.mem_singleton.mp h] at hp
    exact .parameter hp
  | .step _ o => fun hp h => .nested hp (o.mentions_of_mem h)
theorem mentions_of_mem_referencesOf (op : Operator) (ps : List Parameter) :
    (qs : List Parameter) → (∀ q ∈ qs, q ∈ ps) → name ∈ referencesOf qs →
      (Operation.apply op ps).Mentions name
  | [] => fun _ h => by cases h
  | q :: rest => fun hqs h => by
    rw [List.forall_mem_cons] at hqs
    rw [referencesOf, List.mem_append] at h
    rcases h with h | h
    · exact q.mentions_of_mem hqs.1 h
    · exact mentions_of_mem_referencesOf op ps rest hqs.2 h
end

theorem Operation.mem_references_iff {o : Operation} : name ∈ o.references ↔ o.Mentions name := by
  refine ⟨o.mentions_of_mem, fun h => ?_⟩
  induction h with
  | reference => exact List.mem_singleton_self name
  | parameter h => exact mem_referencesOf.mpr ⟨_, h, List.mem_singleton_self name⟩
  | nested h _ ih => exact mem_referencesOf.mpr ⟨_, h, ih⟩

end

/-- A result depends on a name that one of its steps refers to, if that is the result of a step too
and was not bound before the first one. -/
def Formula.DependsOn (f : Formula) (result name : String) : Prop :=
  (∃ s ∈ f.steps, s.result = result ∧ result ≠ "" ∧ s.operation.Mentions name) ∧
    (∃ s ∈ f.steps, s.result = name) ∧ name ∉ f.initialNames

namespace Dependencies

variable {g : Dependencies} {name other : String} {more : List String}

def names (g : Dependencies) : List String := g.map Prod.fst

def Edge (g : Dependencies) (name next : String) : Prop := next ∈ g.of name

theorem of_cons (name other : String) (more : List String) (rest : Dependencies) :
    of ((name, more) :: rest) other = if other = name then more else rest.of other := by
  by_cases h : other = name
  · simp [of, h]
  · simp [of, List.lookup_cons, beq_false_of_ne h, h]

theorem of_add : (g.add name more).of other =
    if other = name then g.of name ++ more else g.of other := by
  induction g with
  | nil => rw [add, of_cons, show of [] name = [] from rfl, List.nil_append]
  | cons entry rest ih =>
    obtain ⟨n, ns⟩ := entry
    by_cases hn : n = name
    · subst hn
      by_cases h : other = n <;> simp [add, of_cons, h]
    · by_cases h : other = n
      · subst h
        simp [add, of_cons, hn]
      · simp [add, of_cons, hn, h, ih, Ne.symm hn]

theorem edge_add {next : String} :
    (g.add name more).Edge other next ↔ g.Edge other next ∨ other = name ∧ next ∈ more := by
  unfold Edge
  rw [of_add]
  by_cases h : other = name
  · simp [h]
  · simp [h]

theorem mem_names_add : other ∈ (g.add name more).names ↔ other ∈ g.names ∨ other = name := by
  induction g with
  | nil => simp [add, names]
  | cons entry rest ih =>
    obtain ⟨n, ns⟩ := entry
    by_cases hn : n = name
    · simp [add, names, hn]
      tauto
    · simp only [names, add, hn, if_false, List.map_cons, List.mem_cons] at ih ⊢
      rw [ih, or_assoc]

theorem mem_names_of_edge (h : g.Edge name other) : name ∈ g.names := by
  induction g with
  | nil => simp [Edge, of] at h
  | cons entry rest ih =>
    obtain ⟨n, ns⟩ := entry
    unfold Edge at h ih
    rw [of_cons] at h
    by_cases hn : name = n
    · simp [names, hn]
    · rw [if_neg hn] at h
      exact List.mem_cons_of_mem n (ih h)

end Dependencies

namespace Formula

variable {f : Formula} {g : Dependencies} {s : Step} {result name : String}

theorem mem_resultNames : name ∈ f.resultNames ↔ (∃ s ∈ f.steps, s.result = name) ∧ name ≠ "" := by
  simp [resultNames]

def withStep (f : Formula) (g : Dependencies) (s : Step) : Dependencies :=
  if s.result.isEmpty then g
  else
    g.add s.result <|
      s.operation.references.filter fun name =>
        !f.initialNames.contains name && f.resultNames.contains name

theorem dependencies_eq_foldl (f : Formula) : f.dependencies = f.steps.foldl f.withStep [] := rfl

theorem edge_withStep : (f.withStep g s).Edge result name ↔
    g.Edge result name ∨ (s.result = result ∧ result ≠ "" ∧ s.operation.Mentions name) ∧
      name ∉ f.initialNames ∧ name ∈ f.resultNames := by
  unfold withStep
  by_cases h : s.result = ""
  · rw [if_pos (String.isEmpty_iff.mpr h)]
    refine ⟨.inl, ?_⟩
    rintro (hedge | ⟨⟨rfl, hne, -⟩, -⟩)
    · exact hedge
    · exact absurd h hne
  · have hkept : (!f.initialNames.contains name && f.resultNames.contains name) = true ↔
        name ∉ f.initialNames ∧ name ∈ f.resultNames := by simp
    rw [if_neg (by simpa using h), Dependencies.edge_add, List.mem_filter, hkept,
      Operation.mem_references_iff]
    refine or_congr_right ?_
    constructor
    · rintro ⟨rfl, hmentions, hname⟩
      exact ⟨⟨rfl, h, hmentions⟩, hname⟩
    · rintro ⟨⟨rfl, -, hmentions⟩, hname⟩
      exact ⟨rfl, hmentions, hname⟩

theorem mem_names_withStep :
    name ∈ (f.withStep g s).names ↔ name ∈ g.names ∨ s.result = name ∧ name ≠ "" := by
  unfold withStep
  by_cases h : s.result = ""
  · rw [if_pos (String.isEmpty_iff.mpr h)]
    refine ⟨.inl, ?_⟩
    rintro (hname | ⟨rfl, hne⟩)
    · exact hname
    · exact absurd h hne
  · rw [if_neg (by simpa using h), Dependencies.mem_names_add]
    refine or_congr_right ⟨?_, fun hname => hname.1.symm⟩
    rintro rfl
    exact ⟨rfl, h⟩

theorem edge_dependencies :
    f.dependencies.Edge result name ↔ f.DependsOn result name ∧ name ≠ "" := by
  have hfold (steps : List Step) (g : Dependencies) :
      (steps.foldl f.withStep g).Edge result name ↔ g.Edge result name ∨
        (∃ s ∈ steps, s.result = result ∧ result ≠ "" ∧ s.operation.Mentions name) ∧
          name ∉ f.initialNames ∧ name ∈ f.resultNames := by
    induction steps generalizing g with
    | nil => simp
    | cons s rest ih =>
      rw [List.foldl_cons, ih, edge_withStep, List.exists_mem_cons_iff]
      tauto
  rw [dependencies_eq_foldl, hfold, mem_resultNames]
  unfold DependsOn
  have hnone : ¬Dependencies.Edge [] result name := by simp [Dependencies.Edge, Dependencies.of]
  tauto

theorem mem_names_dependencies : name ∈ f.dependencies.names ↔ name ∈ f.resultNames := by
  have hfold (steps : List Step) (g : Dependencies) :
      name ∈ (steps.foldl f.withStep g).names ↔
        name ∈ g.names ∨ (∃ s ∈ steps, s.result = name) ∧ name ≠ "" := by
    induction steps generalizing g with
    | nil => simp
    | cons s rest ih =>
      rw [List.foldl_cons, ih, mem_names_withStep, List.exists_mem_cons_iff]
      tauto
  rw [dependencies_eq_foldl, hfold, mem_resultNames]
  exact or_iff_right (by simp [Dependencies.names])

theorem DependsOn.ne_empty (h : f.DependsOn result name) : result ≠ "" := by
  obtain ⟨⟨s, -, -, hne, -⟩, -⟩ := h
  exact hne

theorem transGen_edge (h : Relation.TransGen f.DependsOn result name) (hname : name ≠ "") :
    Relation.TransGen f.dependencies.Edge result name := by
  induction h with
  | single hdep => exact .single (edge_dependencies.mpr ⟨hdep, hname⟩)
  | tail _ hdep ih => exact (ih hdep.ne_empty).tail (edge_dependencies.mpr ⟨hdep, hname⟩)

end Formula

namespace Dependencies

/-- Looking at names in turn, below a path and after the names `visited`, as deep as dependencies
lead. The answer is the first loop, or the names visited by then. -/
inductive Explores (g : Dependencies) :
    List String → List String → List String → Except (List String) (List String) → Prop
  | done {path visited : List String} : Explores g path visited [] (.ok visited)
  | closed {path visited rest : List String} {name : String} (h : name ∈ path) :
    Explores g path visited (name :: rest) (.error (loop path name))
  | skip {path visited rest : List String} {name : String} {out : Except _ _} (h : name ∉ path)
    (hvisited : name ∈ visited) (hrest : Explores g path visited rest out) :
    Explores g path visited (name :: rest) out
  | stop {path visited rest found : List String} {name : String} (h : name ∉ path)
    (hvisited : name ∉ visited)
    (hbelow : Explores g (name :: path) visited (g.of name) (.error found)) :
    Explores g path visited (name :: rest) (.error found)
  | leave {path visited rest below : List String} {name : String} {out : Except _ _}
    (h : name ∉ path) (hvisited : name ∉ visited)
    (hbelow : Explores g (name :: path) visited (g.of name) (.ok below))
    (hrest : Explores g path (name :: below) rest out) :
    Explores g path visited (name :: rest) out

variable {g : Dependencies} {path visited names : List String}
variable {out out' : Except (List String) (List String)}

theorem Explores.unique (h : g.Explores path visited names out)
    (h' : g.Explores path visited names out') : out = out' := by
  induction h generalizing out' with
  | done =>
    cases h'
    rfl
  | closed hname => cases h' <;> first | rfl | contradiction
  | skip hname hvisited _ ih =>
    cases h' with
    | skip _ _ hrest => exact ih hrest
    | closed | stop | leave => contradiction
  | stop hname hvisited _ ih =>
    cases h' with
    | stop _ _ hbelow => exact ih hbelow
    | leave _ _ hbelow => cases ih hbelow
    | closed | skip => contradiction
  | leave hname hvisited _ _ ihbelow ihrest =>
    cases h' with
    | stop _ _ hbelow => cases ihbelow hbelow
    | leave _ _ hbelow hrest =>
      cases ihbelow hbelow
      exact ihrest hrest
    | closed | skip => contradiction

theorem isLoop_loop {name : String} (hname : name ∈ path) (hnodup : path.Nodup)
    (hwalk : (path.reverse ++ [name]).IsChain g.Edge) : IsLoop g.Edge (loop path name) := by
  obtain ⟨before, after, hsplit, hbefore⟩ :=
    List.eq_append_cons_of_mem (List.mem_reverse.mpr hname)
  have hdrop : loop path name = name :: (after ++ [name]) := by
    unfold loop
    rw [hsplit, List.dropWhile_append_of_pos]
    · simp
    · intro other hother
      have hne : other ≠ name := by
        rintro rfl
        exact hbefore hother
      simpa using hne
  rw [← List.nodup_reverse, hsplit] at hnodup
  rw [hsplit, List.append_assoc] at hwalk
  refine ⟨name, after, hdrop, hnodup.of_append_right, ?_⟩
  rw [hdrop]
  exact hwalk.right_of_append

/-- What is reported is a loop: the path is a walk that leads to each of the names. -/
theorem Explores.isLoop (h : g.Explores path visited names out) (hnodup : path.Nodup)
    (hwalk : ∀ name ∈ names, (path.reverse ++ [name]).IsChain g.Edge) {found : List String}
    (hfound : out = .error found) : IsLoop g.Edge found := by
  induction h with
  | done => cases hfound
  | closed hname =>
    cases hfound
    exact isLoop_loop hname hnodup (hwalk _ List.mem_cons_self)
  | skip _ _ _ ih =>
    exact ih hnodup (fun name hname => hwalk name (List.mem_cons_of_mem _ hname)) hfound
  | @stop path visited rest found' name hname _ _ ih =>
    refine ih (List.nodup_cons.mpr ⟨hname, hnodup⟩) ?_ hfound
    intro next hnext
    rw [List.reverse_cons]
    refine (hwalk name List.mem_cons_self).append (.singleton next) ?_
    simpa [Edge] using hnext
  | leave _ _ _ _ _ ih =>
    exact ih hnodup (fun name hname => hwalk name (List.mem_cons_of_mem _ hname)) hfound

/-- What is left behind is on no loop: no dependencies lead from there without end. -/
theorem Explores.accessible (h : g.Explores path visited names out) {left : List String}
    (hleft : out = .ok left) (hvisited : ∀ name ∈ visited, Acc (Function.swap g.Edge) name) :
    (∀ name ∈ names, Acc (Function.swap g.Edge) name) ∧
      ∀ name ∈ left, Acc (Function.swap g.Edge) name := by
  induction h generalizing left with
  | done =>
    cases hleft
    exact ⟨by simp, hvisited⟩
  | closed | stop => cases hleft
  | skip _ hmem _ ih =>
    obtain ⟨hrest, hall⟩ := ih hleft hvisited
    exact ⟨List.forall_mem_cons.mpr ⟨hvisited _ hmem, hrest⟩, hall⟩
  | leave _ _ _ _ ihbelow ihrest =>
    obtain ⟨hnext, hbelow⟩ := ihbelow rfl hvisited
    have hname := Acc.intro (r := Function.swap g.Edge) _ hnext
    obtain ⟨hrest, hall⟩ := ihrest hleft (List.forall_mem_cons.mpr ⟨hname, hbelow⟩)
    exact ⟨List.forall_mem_cons.mpr ⟨hname, hrest⟩, hall⟩

def follow (g : Dependencies) (depth : ℕ) (path visited : List String) (name : String) :
    Except (List String) (List String) :=
  if path.contains name then .error (loop path name)
  else if visited.contains name then .ok visited
  else search g depth path visited name

theorem search_succ (g : Dependencies) (depth : ℕ) (path visited : List String) (name : String) :
    search g (depth + 1) path visited name = (do
      let left ← (g.of name).foldlM (g.follow depth (name :: path)) visited
      return name :: left) := by
  rw [search]
  rfl

def room (g : Dependencies) (path : List String) : ℕ :=
  (g.names.toFinset \ path.toFinset).card

theorem room_cons_lt {name : String} (hname : name ∈ g.names) (hpath : name ∉ path) :
    g.room (name :: path) < g.room path := by
  unfold room
  rw [List.toFinset_cons, Finset.sdiff_insert]
  apply Finset.card_erase_lt_of_mem
  simp [hname, hpath]

theorem room_nil_le (g : Dependencies) : g.room [] ≤ g.length := by
  have h := List.toFinset_card_le g.names
  simpa [room, names] using h

theorem explores_foldlM_of_search {depth : ℕ} (hnames : ∀ name ∈ names, name ∈ g.names)
    (hsearch : ∀ name ∈ g.names, name ∉ path → ∀ visited, ∃ below,
      g.Explores (name :: path) visited (g.of name) below ∧
        search g depth path visited name = (do let left ← below; return name :: left)) :
    g.Explores path visited names (names.foldlM (g.follow depth path) visited) := by
  induction names generalizing visited with
  | nil => exact .done
  | cons name rest ih =>
    rw [List.forall_mem_cons] at hnames
    rw [List.foldlM_cons]
    by_cases hpath : name ∈ path
    · rw [follow, if_pos (by simpa using hpath)]
      exact .closed hpath
    by_cases hvisited : name ∈ visited
    · rw [follow, if_neg (by simpa using hpath), if_pos (by simpa using hvisited)]
      exact .skip hpath hvisited (ih hnames.2)
    rw [follow, if_neg (by simpa using hpath), if_neg (by simpa using hvisited)]
    obtain ⟨below, hbelow, heq⟩ := hsearch name hnames.1 hpath visited
    rw [heq]
    cases below with
    | error found => exact .stop hpath hvisited hbelow
    | ok left => exact .leave hpath hvisited hbelow (ih hnames.2)

/-- Below a path with room for no more than `depth` names, nothing bounds the search. -/
theorem explores_foldlM (hclosed : ∀ name next, g.Edge name next → next ∈ g.names) {depth : ℕ}
    (hroom : g.room path ≤ depth) (hnames : ∀ name ∈ names, name ∈ g.names) :
    g.Explores path visited names (names.foldlM (g.follow depth path) visited) := by
  induction depth generalizing path visited names with
  | zero =>
    -- All names are on the path, so that the search never runs out of depth.
    apply explores_foldlM_of_search hnames
    intro name hname hpath
    have hlt := room_cons_lt hname hpath
    omega
  | succ depth ih =>
    apply explores_foldlM_of_search hnames
    intro name hname hpath visited
    have hlt := room_cons_lt hname hpath
    refine ⟨_, ?_, search_succ g depth path visited name⟩
    exact ih (by omega) (hclosed name)

theorem explores_firstLoop? (hclosed : ∀ name next, g.Edge name next → next ∈ g.names)
    (hnames : ∀ name ∈ names, name ∈ g.names) :
    ∃ out, g.Explores [] [] names out ∧
      g.firstLoop? names =
        match out with
        | .error path => some path
        | .ok _ => none :=
  ⟨names.foldlM (g.follow g.length []) [], explores_foldlM hclosed g.room_nil_le hnames, rfl⟩

end Dependencies

namespace Formula

variable {f : Formula} {settings : FormulaSettings}

def searchDefects (f : Formula) : Except (List String) (List String) → List Defect
  | .error path => [.circular (path.head?.bind f.producerId?) path]
  | .ok _ => []

theorem exists_explores (f : Formula) :
    ∃ out, f.dependencies.Explores [] [] f.resultNames out ∧
      f.cycleDefects = f.searchDefects out ∧
      match out with
      | .error path => IsLoop f.DependsOn path
      | .ok _ => ∀ name, ¬Relation.TransGen f.DependsOn name name := by
  have hclosed (name next : String) (h : f.dependencies.Edge name next) :
      next ∈ f.dependencies.names := by
    obtain ⟨⟨-, hresult, -⟩, hne⟩ := edge_dependencies.mp h
    exact mem_names_dependencies.mpr (mem_resultNames.mpr ⟨hresult, hne⟩)
  obtain ⟨out, hexplores, hfirst⟩ := Dependencies.explores_firstLoop? hclosed
    (fun name hname => mem_names_dependencies.mpr hname)
  refine ⟨out, hexplores, ?_, ?_⟩
  · unfold cycleDefects
    rw [hfirst]
    cases out <;> rfl
  cases out with
  | error path =>
    have hloop := hexplores.isLoop List.nodup_nil (fun name _ => .singleton name) rfl
    exact hloop.mono fun _ _ h => (edge_dependencies.mp h).1
  | ok left =>
    intro name hcycle
    obtain ⟨next, hdep, -⟩ := Relation.TransGen.head'_iff.mp hcycle
    have hedges := transGen_edge hcycle hdep.ne_empty
    obtain ⟨next, hedge, -⟩ := Relation.TransGen.head'_iff.mp hedges
    have hname := mem_names_dependencies.mp (Dependencies.mem_names_of_edge hedge)
    obtain ⟨haccessible, -⟩ := hexplores.accessible rfl (by simp)
    exact not_transGen_self (haccessible name hname) hedges

theorem isLoop_of_circular {stepId : Option String} {path : List String}
    (h : .circular stepId path ∈ f.defects settings) : IsLoop f.DependsOn path := by
  obtain ⟨out, -, hdefects, hout⟩ := f.exists_explores
  have hmem := mem_cycleDefects_iff.mpr ⟨h, rfl⟩
  rw [hdefects] at hmem
  cases out with
  | error found =>
    cases List.mem_singleton.mp hmem
    exact hout
  | ok left => cases hmem

theorem errors_review (f : Formula) (settings : FormulaSettings) :
    (f.review settings).errors =
      (f.shapeDefects ++ f.stepDefects settings.maxNestingDepth).map Defect.finding ++
        f.cycleDefects.map Defect.finding := by
  rw [← List.map_append]
  rfl

theorem filter_isCircular_errors (f : Formula) (settings : FormulaSettings) :
    (f.review settings).errors.filter (fun e => e.IsCircular) =
      f.cycleDefects.map Defect.finding := by
  have hothers : ((f.shapeDefects ++ f.stepDefects settings.maxNestingDepth).map
      Defect.finding).filter (fun e => e.IsCircular) = [] := by
    rw [List.filter_eq_nil_iff, List.forall_mem_map]
    intro d hd
    rw [decide_eq_true_iff, Defect.finding_isCircular_iff]
    rcases List.mem_append.mp hd with hd | hd
    · simp [aspect_of_mem_shapeDefects hd]
    · simp [aspect_of_mem_stepDefects hd]
  have hcycles : (f.cycleDefects.map Defect.finding).filter (fun e => e.IsCircular) =
      f.cycleDefects.map Defect.finding := by
    rw [List.filter_eq_self, List.forall_mem_map]
    intro d hd
    rw [decide_eq_true_iff, Defect.finding_isCircular_iff]
    exact aspect_of_mem_cycleDefects hd
  rw [errors_review, List.filter_append, hothers, hcycles, List.nil_append]

theorem mem_errors_isCircular {e : Report.Finding Report.ErrorKind} :
    e ∈ (f.review settings).errors ∧ e.IsCircular ↔ e ∈ f.cycleDefects.map Defect.finding := by
  rw [← filter_isCircular_errors f settings, List.mem_filter, decide_eq_true_iff]

/-- The search for loops ends and is exact: a review reports circular dependencies where results
depend on each other in a circle and nowhere else, it does so once, and what it shows is a loop. -/
theorem circular_reported_iff (f : Formula) (settings : FormulaSettings) :
    (∃! out, f.dependencies.Explores [] [] f.resultNames out ∧
      f.cycleDefects = f.searchDefects out) ∧
      ((∃ e ∈ (f.review settings).errors, e.IsCircular) ↔
        ∃ name, Relation.TransGen f.DependsOn name name) ∧
      ((f.review settings).errors.filter fun e => e.IsCircular).length ≤ 1 ∧
      ∀ e ∈ (f.review settings).errors, e.IsCircular →
        ∃ path, IsLoop f.DependsOn path ∧
          e = (Defect.circular (path.head?.bind f.producerId?) path).finding := by
  obtain ⟨out, hexplores, hdefects, hout⟩ := f.exists_explores
  refine ⟨⟨out, ⟨hexplores, hdefects⟩, fun out' h => h.1.unique hexplores⟩, ?_⟩
  rw [filter_isCircular_errors]
  simp only [← and_imp, mem_errors_isCircular]
  rw [hdefects]
  cases out with
  | error path =>
    refine ⟨?_, le_refl 1, ?_⟩
    · exact iff_of_true ⟨_, List.mem_singleton_self _⟩ hout.exists_transGen
    · intro e he
      exact ⟨path, hout, List.mem_singleton.mp he⟩
  | ok left =>
    refine ⟨?_, Nat.zero_le 1, nofun⟩
    apply iff_of_false
    · rintro ⟨e, he⟩
      cases he
    · rintro ⟨name, hcycle⟩
      exact hout name hcycle

end Formula

end Payroll
