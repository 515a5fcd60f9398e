import Graft.Proofs.Scope.Segment
/-!
Events of a program that are cut out, and what is left of the names.

Enclosed segments can be cut out of the events of a program (`ScopeEvent.Cut`). This file says what
is left of the state of a walk, so that the walk along the rest can be compared with the walk along
the whole, event by event.

- The symbols that stay are numbered anew, in the same order (`Cutting.number`). A symbol stays if
  the name that first declared it does, so it can be told from the offsets that go which symbols go
  (`Cutting.keeps`).
- What is left of a scope is the scope with these numbers and without the uses that go
  (`Cutting.scope`). It finds a name where the scope found it (`Cutting.find?_scope`).
- Introducing a name that stays in what is left of a scope is what it was in the scope
  (`Cutting.Remains.introduceIn`, `Cutting.Remains.introduceWide`).
-/
namespace Graft

namespace ScopeEvent

-- ============================================================ events that are left

/-- The same event, but for the value that comes with a name. -/
inductive Alike : ScopeEvent → ScopeEvent → Prop
  | enter (isWide : Bool) : Alike (.enter isWide) (.enter isWide)
  | leave : Alike .leave .leave
  | use (name : String) (start : Nat) (isWrite : Bool) :
      Alike (.use name start isWrite) (.use name start isWrite)
  | introduce (name : String) (span : Span) {how how' : Introduction}
      (h : how.reach = how'.reach) :
      Alike (.introduce name span how) (.introduce name span how')

/-- What is `gone` and what is the `rest` when enclosed segments are cut out of some events. -/
inductive Cut : (events gone rest : List ScopeEvent) → Prop
  | nil : Cut [] [] []
  | keep {e e' : ScopeEvent} {events gone rest : List ScopeEvent} (h : e.Alike e')
      (more : Cut events gone rest) : Cut (e :: events) gone (e' :: rest)
  | drop {segment events gone rest : List ScopeEvent} (h : Encloses [] segment)
      (more : Cut events gone rest) : Cut (segment ++ events) (segment ++ gone) rest

/-- Two cuts, one after the other, are a cut. -/
theorem Cut.append {es gone rest es' gone' rest' : List ScopeEvent} (h : Cut es gone rest)
    (h' : Cut es' gone' rest') : Cut (es ++ es') (gone ++ gone') (rest ++ rest') := by
  induction h with
  | nil => exact h'
  | keep he _ ih => exact .keep he ih
  | drop hs _ ih =>
      rw [List.append_assoc, List.append_assoc]
      exact .drop hs ih

theorem Cut.singleton {e e' : ScopeEvent} (h : e.Alike e') : Cut [e] [] [e'] := .keep h .nil

/-- A segment that goes away as a whole. -/
theorem Cut.whole {segment : List ScopeEvent} (h : Encloses [] segment) :
    Cut segment segment [] := by
  have := Cut.drop h .nil
  rwa [List.append_nil] at this

/-- What is cut out inside of a scope. -/
theorem Cut.inScope {es gone rest : List ScopeEvent} (isWide : Bool) (h : Cut es gone rest) :
    Cut (inScope isWide es) gone (inScope isWide rest) := by
  have := h.append (.singleton .leave)
  rw [List.append_nil] at this
  exact .keep (.enter isWide) this

/-- Whatever is read off events is read off those that are gone or off the rest. -/
theorem Cut.filterMap {β : Type} {f : ScopeEvent → Option β} (hf : ∀ e e', Alike e e' → f e = f e')
    {es gone rest : List ScopeEvent} (h : Cut es gone rest) :
    (es.filterMap f).Perm (gone.filterMap f ++ rest.filterMap f) := by
  induction h with
  | nil => exact .refl _
  | @keep e e' es gone rest he _ ih =>
      rw [List.filterMap_cons, List.filterMap_cons, ← hf e e' he]
      cases f e with
      | none => exact ih
      | some b => exact (ih.cons b).trans List.perm_middle.symm
  | drop _ _ ih =>
      rw [List.filterMap_append, List.filterMap_append, List.append_assoc]
      exact ih.append_left _

/-- The uses of the whole are those that are gone and those of the rest. -/
theorem Cut.useStarts {es gone rest : List ScopeEvent} (h : Cut es gone rest) :
    (es.filterMap useStart?).Perm (gone.filterMap useStart? ++ rest.filterMap useStart?) :=
  h.filterMap fun _ _ h => by cases h <;> rfl

/-- The introduced names of the whole are those that are gone and those of the rest. -/
theorem Cut.nameStarts {es gone rest : List ScopeEvent} (h : Cut es gone rest) :
    (es.filterMap nameStart?).Perm (gone.filterMap nameStart? ++ rest.filterMap nameStart?) :=
  h.filterMap fun _ _ h => by cases h <;> rfl

end ScopeEvent

-- ============================================================ numbers of what is left

/-- What is cut out of a program: the offsets of the uses and of the names that go, and, to tell
which symbols go with them, where each symbol of the program is declared first. -/
structure Cutting where
  uses : List Nat
  names : List Nat
  first : List Nat

namespace Cutting

/-- Whether a symbol stays. -/
def keeps (c : Cutting) (k : Nat) : Bool := (c.first[k]?).any fun start => !c.names.contains start

/-- The number that a symbol has among those that stay. -/
def number (c : Cutting) (k : Nat) : Nat := (List.range k).countP c.keeps

variable {c : Cutting}

/-- Each symbol that stays moves the number of the next one up. -/
theorem number_succ (k : Nat) : c.number (k + 1) = c.number k + if c.keeps k then 1 else 0 := by
  rw [number, List.range_succ, List.countP_append, List.countP_singleton]
  rfl

/-- Numbers go up with the symbols. -/
theorem number_le {j k : Nat} (h : j ≤ k) : c.number j ≤ c.number k := by
  induction h with
  | refl => exact Nat.le_refl _
  | step _ ih =>
      rw [number_succ]
      omega

/-- A symbol that stays has a lower number than any later one. -/
theorem number_lt {j k : Nat} (hj : c.keeps j = true) (h : j < k) : c.number j < c.number k := by
  have hle : c.number (j + 1) ≤ c.number k := number_le h
  rw [number_succ, if_pos hj] at hle
  omega

/-- Symbols that go change no number. -/
theorem number_eq {j k : Nat} (h : j ≤ k) (hgoes : ∀ i, j ≤ i → i < k → c.keeps i = false) :
    c.number k = c.number j := by
  induction h with
  | refl => rfl
  | @step k hjk ih =>
      rw [number_succ, hgoes k hjk (Nat.lt_succ_self k),
        ih fun i hlo hhi => hgoes i hlo (Nat.lt_succ_of_lt hhi)]
      rfl

/-- Symbols that stay have different numbers. -/
theorem number_inj {j k : Nat} (hj : c.keeps j = true) (hk : c.keeps k = true)
    (h : c.number j = c.number k) : j = k := by
  rcases Nat.lt_trichotomy j k with hlt | heq | hlt
  · have := number_lt hj hlt
    omega
  · exact heq
  · have := number_lt hk hlt
    omega

/-- Whether the symbols that a walk has made are first declared where the program declares its
first ones. -/
def Follows (c : Cutting) (b : Bindings) : Prop := b.symbols.map (·.span.start) <+: c.first

/-- A new symbol stays just when the name that declares it does. -/
theorem keeps_length {b : Bindings} {name : String} {span : Span} {how : Introduction}
    (h : c.Follows (ScopeWalk.withSymbol b name span how)) :
    c.keeps b.symbols.length = !c.names.contains span.start := by
  obtain ⟨more, hmore⟩ := h
  rw [keeps, ← hmore]
  simp [ScopeWalk.withSymbol, ScopeWalk.newSymbol]

-- ============================================================ scopes that are left

/-- An entry of a scope. -/
def entry (c : Cutting) (e : String × Nat) : String × Nat := (e.1, c.number e.2)

/-- A scope without the uses that go. -/
def scope (c : Cutting) (s : OpenScope) : OpenScope where
  isWide := s.isWide
  names := s.names.map c.entry
  passing := s.passing.map c.entry
  waiting := s.waiting.filter fun u => !c.uses.contains u.start

/-- A use of a symbol that stays. -/
def use (c : Cutting) (u : Use) : Use := ⟨u.start, u.isWrite, u.symbol.map c.number⟩

/-- Uses at some of the offsets that go, and then all that go, are all that go. -/
theorem goes_of_subset {starts : List Nat} (h : ∀ start ∈ starts, start ∈ c.uses) (start : Nat) :
    (!c.uses.contains start && !starts.contains start) = !c.uses.contains start := by
  by_cases hstart : start ∈ starts
  · simp [h start hstart]
  · simp [hstart]

/-- What remains of the names that a walk has found. -/
structure Remains (c : Cutting) (b b' : Bindings) : Prop where
  length : b'.symbols.length = c.number b.symbols.length
  isOwn : ∀ k < b.symbols.length, c.keeps k = true →
    (b'.symbols[c.number k]?).any (·.isOwn) = (b.symbols[k]?).any (·.isOwn)
  declared : b'.declared = (b.declared.filter fun d => !c.names.contains d.1).map
    fun d => (d.1, c.number d.2)
  uses : b'.uses = (b.uses.filter fun u => !c.uses.contains u.start).map c.use

/-- A lookup among the entries that stay finds the new number of what it found. -/
theorem lookup_entry (entries : List (String × Nat)) (name : String) :
    (entries.map c.entry).lookup name = (entries.lookup name).map c.number := by
  induction entries with
  | nil => rfl
  | cons e entries ih =>
      rw [List.map_cons, List.lookup_cons, List.lookup_cons, ih]
      show (match name == e.1 with | true => _ | false => _) = _
      cases name == e.1 <;> rfl

/-- So does a search in a scope. -/
theorem find?_scope (s : OpenScope) (name : String) :
    (c.scope s).find? name = (s.find? name).map c.number := by
  simp only [OpenScope.find?, scope, lookup_entry]
  cases s.names.lookup name <;> rfl

/-- And so does a search through the scopes around. -/
theorem findSome?_scope (scopes : List OpenScope) (name : String) :
    (scopes.map c.scope).findSome? (·.find? name)
      = (scopes.findSome? (·.find? name)).map c.number := by
  rw [List.findSome?_map, List.map_findSome?]
  congr 1
  funext s
  exact find?_scope s name

/-- To declare a name in a scope and to cut the scope down can be done in either order. -/
theorem scope_put (s : OpenScope) (name : String) (n : Nat) :
    c.scope (s.put name n) = (c.scope s).put name (c.number n) := by
  simp only [scope, OpenScope.put, List.map_cons, List.filter_map]
  rfl

/-- Moving a symbol out of a scope is moving the one that is left of it. -/
theorem scope_drop {s : OpenScope} (hs : ∀ k ∈ s.numbers, c.keeps k = true) (name : String) {n : Nat}
    (hn : c.keeps n = true) :
    c.scope (ScopeWalk.drop name n s) = ScopeWalk.drop name (c.number n) (c.scope s) := by
  have hnames : (s.names.filter fun e => !(e.1 == name && e.2 == n)).map c.entry
      = (s.names.map c.entry).filter fun e => !(e.1 == name && e.2 == c.number n) := by
    rw [List.filter_map]
    congr 1
    refine List.filter_congr fun e he => ?_
    have hk : c.keeps e.2 = true := hs e.2 (List.mem_append_left _ (List.mem_map_of_mem he))
    by_cases heq : e.2 = n
    · simp [entry, heq]
    · have hne : c.number e.2 ≠ c.number n := fun h => heq (number_inj hk hn h)
      have hold : (e.2 == n) = false := beq_eq_false_iff_ne.mpr heq
      have hnew : (c.number e.2 == c.number n) = false := beq_eq_false_iff_ne.mpr hne
      simp [entry, hold, hnew]
  simp only [scope, ScopeWalk.drop, hnames]

-- ============================================================ names that are left

namespace Remains

variable {b b' : Bindings} {name : String} {span : Span} {how how' : Introduction}

/-- A symbol that stays is declared again. -/
theorem again (h : c.Remains b b') (hname : span.start ∉ c.names) (n : Nat) :
    c.Remains (ScopeWalk.again b span n) (ScopeWalk.again b' span (c.number n)) := by
  have hown : ∀ (symbols : List Symbol) (m k : Nat),
      ((ScopeWalk.redeclare symbols m)[k]?).any (·.isOwn) = (symbols[k]?).any (·.isOwn) := by
    intro symbols m k
    rw [ScopeWalk.redeclare, List.getElem?_modify]
    cases symbols[k]? with
    | none => rfl
    | some s => by_cases hmk : m = k <;> simp [hmk]
  refine ⟨?_, fun k hk hkeeps => ?_, ?_, h.uses⟩
  · simpa [ScopeWalk.again, ScopeWalk.redeclare] using h.length
  · have hk : k < b.symbols.length := by
      simpa [ScopeWalk.again, ScopeWalk.redeclare] using hk
    simp only [ScopeWalk.again, hown]
    exact h.isOwn k hk hkeeps
  · simp [ScopeWalk.again, hname, h.declared]

/-- A symbol that stays is met for the first time. -/
theorem withSymbol (h : c.Remains b b') (hreach : how.reach = how'.reach)
    (hname : span.start ∉ c.names) (hkeeps : c.keeps b.symbols.length = true) :
    c.Remains (ScopeWalk.withSymbol b name span how) (ScopeWalk.withSymbol b' name span how') := by
  refine ⟨?_, fun k hk hkeeps' => ?_, ?_, h.uses⟩
  · simp [ScopeWalk.withSymbol, number_succ, hkeeps, h.length]
  · have hk : k < b.symbols.length + 1 := by simpa [ScopeWalk.withSymbol] using hk
    by_cases hlast : k = b.symbols.length
    · subst hlast
      simp [ScopeWalk.withSymbol, ScopeWalk.newSymbol, ← h.length, hreach]
    · have hlt : k < b.symbols.length := by omega
      have hlt' : c.number k < b'.symbols.length := h.length ▸ number_lt hkeeps' hlt
      simp only [ScopeWalk.withSymbol, List.getElem?_append_left hlt,
        List.getElem?_append_left hlt']
      exact h.isOwn k hlt hkeeps'
  · simp [ScopeWalk.withSymbol, hname, h.declared, h.length]

/-- Introducing a name in a scope is introducing it in what is left of the scope. -/
theorem introduceIn (h : c.Remains b b') {s : OpenScope}
    (hs : ∀ k ∈ s.numbers, k < b.symbols.length ∧ c.keeps k = true)
    (hreach : how.reach = how'.reach) (hname : span.start ∉ c.names)
    (hfirst : c.Follows (ScopeWalk.introduceIn s b name span how).2.1) :
    ∃ b₁, ScopeWalk.introduceIn (c.scope s) b' name span how'
        = (c.scope (ScopeWalk.introduceIn s b name span how).1, b₁,
            c.number (ScopeWalk.introduceIn s b name span how).2.2)
      ∧ c.Remains (ScopeWalk.introduceIn s b name span how).2.1 b₁ := by
  -- the scope and what is left of it agree on the symbol that the name has
  have hold : ((c.scope s).find? name).filter
        (fun n : Nat => !(b'.symbols[n]?).any fun (s : Symbol) => s.isOwn)
      = ((s.find? name).filter
          fun n : Nat => !(b.symbols[n]?).any fun (s : Symbol) => s.isOwn).map c.number := by
    rw [find?_scope]
    cases hfind : s.find? name with
    | none => rfl
    | some n =>
        obtain ⟨hlt, hkeeps⟩ := hs n (OpenScope.mem_numbers_of_find? hfind)
        have hown := h.isOwn n hlt hkeeps
        simp only [Option.map_some, Option.filter_some, hown]
        split <;> rfl
  unfold ScopeWalk.introduceIn at hfirst ⊢
  rw [hold]
  generalize (s.find? name).filter
    (fun n : Nat => !(b.symbols[n]?).any fun (s : Symbol) => s.isOwn) = old at hfirst ⊢
  cases old with
  | some n => exact ⟨_, rfl, h.again hname n⟩
  | none =>
      have hkeeps : c.keeps b.symbols.length = true := by
        have hnew : c.Follows (ScopeWalk.withSymbol b name span how) := hfirst
        rw [keeps_length hnew]
        simpa using hname
      refine ⟨ScopeWalk.withSymbol b' name span how', ?_, h.withSymbol hreach hname hkeeps⟩
      simp only [Option.map_none, scope_put, h.length]
      simp [ScopeWalk.withSymbol, ScopeWalk.newSymbol, h.length]

/-- Introducing a name as `var` does is introducing it among the scopes that are left. -/
theorem introduceWide (h : c.Remains b b') {scopes : List OpenScope}
    (hs : ∀ k ∈ OpenScope.numbersOf scopes, k < b.symbols.length ∧ c.keeps k = true)
    (hreach : how.reach = how'.reach) (hname : span.start ∉ c.names)
    (hfirst : c.Follows (ScopeWalk.introduceWide name span how b scopes).2) :
    ∃ b₁, ScopeWalk.introduceWide name span how' b' (scopes.map c.scope)
        = ((ScopeWalk.introduceWide name span how b scopes).1.map c.scope, b₁)
      ∧ c.Remains (ScopeWalk.introduceWide name span how b scopes).2 b₁ := by
  -- the cut leaves scopes as wide as they are, so the first wide one is the same
  have htake : (scopes.map c.scope).takeWhile (!·.isWide)
      = (scopes.takeWhile (!·.isWide)).map c.scope := List.takeWhile_map ..
  have hdrop : (scopes.map c.scope).dropWhile (!·.isWide)
      = (scopes.dropWhile (!·.isWide)).map c.scope := List.dropWhile_map ..
  have hmem : ∀ s ∈ scopes, ∀ k ∈ s.numbers, k < b.symbols.length ∧ c.keeps k = true :=
    fun s hs' k hk => hs k (List.mem_flatMap.mpr ⟨s, hs', hk⟩)
  have hinner : ∀ s ∈ scopes.takeWhile (!·.isWide), s ∈ scopes :=
    fun s hs' => (List.takeWhile_sublist _).subset hs'
  unfold ScopeWalk.introduceWide at hfirst ⊢
  simp only [htake, hdrop, findSome?_scope] at hfirst ⊢
  cases hout : scopes.dropWhile (!·.isWide) with
  | nil =>
      exact ⟨b', rfl, h⟩
  | cons target outer =>
      have htarget : target ∈ scopes := (List.dropWhile_sublist _).subset (hout ▸ List.mem_cons_self)
      simp only [hout, List.map_cons] at hfirst ⊢
      cases hfind : (scopes.takeWhile (!·.isWide)).findSome? (·.find? name) with
      -- a scope on the way has the name: the symbol moves to the wide scope, under its new number
      | some n =>
          obtain ⟨s, hs', hn⟩ := List.exists_of_findSome?_eq_some hfind
          have hkeeps := (hmem s (hinner s hs') n (OpenScope.mem_numbers_of_find? hn)).2
          have hhas : ((c.scope target).names.lookup name).isSome
              = (target.names.lookup name).isSome := by
            rw [scope, lookup_entry, Option.isSome_map]
          refine ⟨ScopeWalk.again b' span (c.number n), ?_, ?_⟩
          · dsimp only [Option.map_some]
            rw [hhas]
            split
            · simp only [List.map_append, List.map_map, List.map_cons]
              rfl
            · simp only [List.map_append, List.map_map, List.map_cons, scope_put]
              congr 2
              refine List.map_congr_left fun s hs' => ?_
              have hdropped := scope_drop (fun k hk => (hmem s (hinner s hs') k hk).2) name hkeeps
              exact congrArg (ScopeWalk.pass name (c.number n)) hdropped.symm
          · dsimp only
            split
            · exact h.again hname n
            · exact h.again hname n
      -- no scope on the way has it, so it is introduced in the wide scope as in any other
      | none =>
          simp only [hfind] at hfirst
          obtain ⟨b₁, heq, hb₁⟩ := h.introduceIn (hmem target htarget) hreach hname hfirst
          refine ⟨b₁, ?_, hb₁⟩
          dsimp only [Option.map_none]
          rw [heq]
          simp only [List.map_append, List.map_map, List.map_cons]
          rfl

end Remains

end Cutting

end Graft
