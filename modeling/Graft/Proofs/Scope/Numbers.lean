import Graft.Proofs.Scope.Symbols
/-!
Which symbols a walk can still speak of.

The open scopes hold the numbers of the symbols that later events can reach. An event adds no number
but that of a new symbol, and whatever it records, a use or a declaration, has a number of an open
scope or a new one. `ScopeWalk.Grows` says this of one event (`ScopeWalk.grows_step`) and of any row
of them (`ScopeWalk.grows_walk`). So a symbol that no open scope holds is out of reach for good.

Introducing a name is told once, for every reach (`ScopeWalk.step_introduce_of_fits`): it finds a
scope among those that are open, and declares a symbol of that scope again or makes a new one. What
an introduction does to the scopes in front of that one is all that differs between reaches.
-/
namespace Graft

namespace ScopeEvent

/-- The offset of a use. -/
def useStart? : ScopeEvent → Option Nat
  | .use _ start _ => some start
  | _ => none

/-- The offset of a declaration. -/
def nameStart? : ScopeEvent → Option Nat
  | .introduce _ span _ => some span.start
  | _ => none

end ScopeEvent

namespace OpenScope

/-- The numbers of the symbols that a scope can speak of. -/
def numbers (s : OpenScope) : List Nat := s.names.map Prod.snd ++ s.passing.map Prod.snd

/-- What a lookup finds is a number of the table. -/
theorem mem_map_snd_of_lookup {entries : List (String × Nat)} {name : String} {n : Nat}
    (h : entries.lookup name = some n) : n ∈ entries.map Prod.snd := by
  obtain ⟨before, after, rfl, -⟩ := List.lookup_eq_some_iff.mp h
  simp

/-- What is found in a scope is a number that the scope can speak of. -/
theorem mem_numbers_of_find? {s : OpenScope} {name : String} {n : Nat}
    (h : s.find? name = some n) : n ∈ s.numbers := by
  unfold find? at h
  cases hnames : s.names.lookup name with
  | none =>
      rw [hnames] at h
      exact List.mem_append_right _ (mem_map_snd_of_lookup h)
  | some m =>
      rw [hnames] at h
      obtain rfl : m = n := by simpa using h
      exact List.mem_append_left _ (mem_map_snd_of_lookup hnames)

/-- To declare a name adds one number at most. -/
theorem mem_numbers_put {s : OpenScope} {name : String} {n k : Nat}
    (h : k ∈ (s.put name n).numbers) : k = n ∨ k ∈ s.numbers := by
  rcases List.mem_append.mp h with h | h
  · rcases List.mem_cons.mp h with rfl | h
    · exact .inl rfl
    · obtain ⟨e, he, rfl⟩ := List.mem_map.mp h
      exact .inr (List.mem_append_left _ (List.mem_map_of_mem (List.mem_filter.mp he).1))
  · exact .inr (List.mem_append_right _ h)

/-- The numbers that some scopes can speak of. -/
def numbersOf (scopes : List OpenScope) : List Nat := scopes.flatMap numbers

@[simp] theorem numbersOf_nil : numbersOf [] = [] := rfl

@[simp] theorem numbersOf_cons (s : OpenScope) (scopes : List OpenScope) :
    numbersOf (s :: scopes) = s.numbers ++ numbersOf scopes := rfl

@[simp] theorem numbersOf_append (as bs : List OpenScope) :
    numbersOf (as ++ bs) = numbersOf as ++ numbersOf bs := by
  simp [numbersOf]

end OpenScope

namespace ScopeWalk

open OpenScope

/-- To pass a name on to a wider scope adds one number at most. -/
theorem mem_numbers_pass {name : String} {n k : Nat} {s : OpenScope}
    (h : k ∈ (pass name n s).numbers) : k = n ∨ k ∈ s.numbers := by
  rcases List.mem_append.mp h with h | h
  · exact .inr (List.mem_append_left _ h)
  · rcases List.mem_cons.mp h with rfl | h
    · exact .inl rfl
    · exact .inr (List.mem_append_right _ h)

/-- To drop a name adds none. -/
theorem mem_numbers_drop {name : String} {n k : Nat} {s : OpenScope}
    (h : k ∈ (drop name n s).numbers) : k ∈ s.numbers := by
  rcases List.mem_append.mp h with h | h
  · obtain ⟨e, he, rfl⟩ := List.mem_map.mp h
    exact List.mem_append_left _ (List.mem_map_of_mem (List.mem_filter.mp he).1)
  · exact List.mem_append_right _ h

/-- What a change adds to one scope at most, it adds to a row of scopes at most. -/
theorem mem_numbersOf_map {f : OpenScope → OpenScope} {n k : Nat} {scopes : List OpenScope}
    (hf : ∀ s, k ∈ (f s).numbers → k = n ∨ k ∈ s.numbers) (h : k ∈ numbersOf (scopes.map f)) :
    k = n ∨ k ∈ numbersOf scopes := by
  obtain ⟨s', hs', hk⟩ := List.mem_flatMap.mp h
  obtain ⟨s, hs, rfl⟩ := List.mem_map.mp hs'
  exact (hf s hk).imp_right fun hk => List.mem_flatMap.mpr ⟨s, hs, hk⟩

-- ============================================================ introductions

/-- Whether a name can be introduced in one of some scopes, of which some are wide. -/
def fits (reach : Reach) (flags : List Bool) : Bool :=
  match reach with
  | .wide => flags.contains true
  | .near | .own => !flags.isEmpty

/-- Some scopes of which one is wide, up to the first wide one. -/
theorem exists_first_wide {scopes : List OpenScope}
    (h : fits .wide (scopes.map (·.isWide)) = true) :
    ∃ target inner rest, scopes = inner ++ target :: rest ∧ (∀ s ∈ inner, s.isWide = false)
      ∧ target.isWide = true := by
  obtain ⟨s, hs, hwide⟩ := List.mem_map.mp (List.contains_iff_mem.mp h)
  cases hfind : scopes.find? (·.isWide) with
  | none => exact absurd hwide (by simpa using List.find?_eq_none.mp hfind s hs)
  | some target =>
      obtain ⟨hwide, inner, rest, heq, hinner⟩ := List.find?_eq_some_iff_append.mp hfind
      exact ⟨target, inner, rest, heq, by simpa using hinner, hwide⟩

/-- What of a scope no introduction changes. -/
def shape (s : OpenScope) : Bool × List WaitingUse := (s.isWide, s.waiting)

/-- What introducing a name does to the scopes among which it finds one to stand in: it declares a
symbol of theirs again, or makes a new one. The scopes around them stay as they are. -/
theorem step_introduce_of_fits {w : ScopeWalk} {near outer : List OpenScope} (name : String)
    (span : Span) {how : Introduction} (hw : w.opened = near ++ outer)
    (hfits : fits how.reach (near.map (·.isWide)) = true) :
    ∃ near' n, (step w (.introduce name span how)).opened = near' ++ outer
      ∧ near'.map shape = near.map shape
      ∧ (∀ k ∈ numbersOf near', k = n ∨ k ∈ numbersOf near)
      ∧ ((n ∈ numbersOf near ∧ (step w (.introduce name span how)).found = again w.found span n)
        ∨ n = w.found.symbols.length
          ∧ (step w (.introduce name span how)).found = withSymbol w.found name span how) := by
  by_cases hreach : how.reach = .wide
  · rw [step_introduce_wide hreach, hw]
    rw [hreach] at hfits
    -- the first wide scope is among them
    obtain ⟨target, inner, rest, rfl, hinner, hwide⟩ := exists_first_wide hfits
    have htake : ((inner ++ target :: rest) ++ outer).takeWhile (!·.isWide) = inner := by
      rw [List.append_assoc, List.takeWhile_append_of_pos (by simpa using hinner)]
      simp [hwide]
    have hdrop : ((inner ++ target :: rest) ++ outer).dropWhile (!·.isWide)
        = target :: (rest ++ outer) := by
      rw [List.append_assoc, List.dropWhile_append_of_pos (by simpa using hinner)]
      simp [hwide]
    -- every way to introduce a name changes the scopes one by one
    have hdone : ∀ {f : OpenScope → OpenScope} {target' : OpenScope} {b : Bindings} (n : Nat),
        introduceWide name span how w.found ((inner ++ target :: rest) ++ outer)
          = (inner.map f ++ target' :: (rest ++ outer), b) →
        (∀ s, shape (f s) = shape s) → shape target' = shape target →
        (∀ s k, k ∈ (f s).numbers → k = n ∨ k ∈ s.numbers) →
        (∀ k ∈ target'.numbers, k = n ∨ k ∈ target.numbers) →
        (n ∈ numbersOf (inner ++ target :: rest) ∧ b = again w.found span n
          ∨ n = w.found.symbols.length ∧ b = withSymbol w.found name span how) →
        ∃ near' n, (introduceWide name span how w.found ((inner ++ target :: rest) ++ outer)).1
            = near' ++ outer
          ∧ near'.map shape = (inner ++ target :: rest).map shape
          ∧ (∀ k ∈ numbersOf near', k = n ∨ k ∈ numbersOf (inner ++ target :: rest))
          ∧ ((n ∈ numbersOf (inner ++ target :: rest)
              ∧ (introduceWide name span how w.found ((inner ++ target :: rest) ++ outer)).2
                = again w.found span n)
            ∨ n = w.found.symbols.length
              ∧ (introduceWide name span how w.found ((inner ++ target :: rest) ++ outer)).2
                = withSymbol w.found name span how) := by
      intro f target' b n heq hf htarget hfn htn hb
      rw [heq]
      refine ⟨inner.map f ++ target' :: rest, n, by simp, by simp [Function.comp_def, hf, htarget],
        fun k hk => ?_, hb⟩
      simp only [numbersOf_append, numbersOf_cons, List.mem_append] at hk ⊢
      rcases hk with hk | hk | hk
      · exact (mem_numbersOf_map (hfn · k) hk).imp_right .inl
      · exact (htn k hk).imp_right fun h => .inr (.inl h)
      · exact .inr (.inr (.inr hk))
    have hmem : ∀ n, (∃ s ∈ inner ++ target :: rest, s.find? name = some n) →
        n ∈ numbersOf (inner ++ target :: rest) := fun n ⟨s, hs, hn⟩ =>
      List.mem_flatMap.mpr ⟨s, hs, mem_numbers_of_find? hn⟩
    rcases introduceWide_cases name span how w.found ((inner ++ target :: rest) ++ outer) with
      ⟨hnil, -⟩ | ⟨inner', target', outer', htake', hdrop', hcases⟩
    · rw [hdrop] at hnil
      cases hnil
    · obtain rfl := htake.symm.trans htake'
      obtain ⟨rfl, rfl⟩ := List.cons.inj (hdrop.symm.trans hdrop')
      rcases hcases with ⟨n, ⟨s, hs, hn⟩, heq | heq⟩ | ⟨n, hn, heq⟩ | heq
      · exact hdone n heq (fun _ => rfl) rfl (fun _ _ => mem_numbers_pass) (fun _ => .inr)
          (.inl ⟨hmem n ⟨s, List.mem_append_left _ hs, hn⟩, rfl⟩)
      · exact hdone n heq (fun _ => rfl) rfl
          (fun _ _ hk => (mem_numbers_pass hk).imp_right mem_numbers_drop)
          (fun _ => mem_numbers_put) (.inl ⟨hmem n ⟨s, List.mem_append_left _ hs, hn⟩, rfl⟩)
      · exact hdone n heq (fun _ => rfl) rfl (fun _ _ => mem_numbers_pass) (fun _ => .inr)
          (.inl ⟨hmem n ⟨target, by simp, hn⟩, rfl⟩)
      · exact hdone _ heq (fun _ => rfl) rfl (fun _ _ => mem_numbers_pass)
          (fun _ => mem_numbers_put) (.inr ⟨rfl, rfl⟩)
  · cases near with
    | nil =>
        cases hr : how.reach with
        | wide => exact absurd hr hreach
        | near => rw [hr] at hfits; cases hfits
        | own => rw [hr] at hfits; cases hfits
    | cons s rest =>
        rw [step_introduce_cons hreach hw]
        rcases introduceIn_eq s w.found name span how with ⟨n, hn, heq⟩ | heq
        · refine ⟨s :: rest, n, by simp [heq], rfl, fun _ => .inr, .inl ⟨?_, by rw [heq]⟩⟩
          exact List.mem_flatMap.mpr ⟨s, List.mem_cons_self, mem_numbers_of_find? hn⟩
        · refine ⟨s.put name w.found.symbols.length :: rest, w.found.symbols.length,
            by simp [heq], rfl, fun k hk => ?_, .inr ⟨rfl, by rw [heq]⟩⟩
          simp only [numbersOf_cons, List.mem_append] at hk ⊢
          rcases hk with hk | hk
          · exact (mem_numbers_put hk).imp_right .inl
          · exact .inr (.inr hk)

/-- A name for which there is no scope is not introduced. -/
theorem step_introduce_of_not_fits {w : ScopeWalk} {name : String} {span : Span}
    {how : Introduction} (hfits : fits how.reach (w.opened.map (·.isWide)) = false) :
    step w (.introduce name span how) = w := by
  by_cases hreach : how.reach = .wide
  · rw [step_introduce_wide hreach]
    rw [hreach] at hfits
    rcases introduceWide_cases name span how w.found w.opened with
      ⟨-, heq⟩ | ⟨inner, target, outer, -, hdrop, -⟩
    · rw [heq]
    · have hmem : target ∈ w.opened :=
        (List.dropWhile_sublist _).subset (hdrop ▸ List.mem_cons_self)
      have hwide : target.isWide = true := by
        have := List.head?_dropWhile_not (fun s : OpenScope => !s.isWide) w.opened
        simpa [hdrop] using this
      have hcontains : (w.opened.map (·.isWide)).contains true = true :=
        List.contains_iff_mem.mpr (List.mem_map.mpr ⟨target, hmem, hwide⟩)
      rw [fits, hcontains] at hfits
      cases hfits
  · refine step_introduce_nil hreach ?_
    cases hw : w.opened with
    | nil => rfl
    | cons s outer =>
        rw [hw] at hfits
        cases hr : how.reach with
        | wide => exact absurd hr hreach
        | near => rw [hr] at hfits; cases hfits
        | own => rw [hr] at hfits; cases hfits

-- ==================================================== uses and ends of scopes

section

variable {w : ScopeWalk} {s t : OpenScope} {outer : List OpenScope}

theorem step_use_nil (hw : w.opened = []) (name : String) (start : Nat) (isWrite : Bool) :
    step w (.use name start isWrite) = w := by
  simp [step, hw]

/-- A use waits in the innermost scope. -/
theorem step_use_cons (hw : w.opened = s :: outer) (name : String) (start : Nat)
    (isWrite : Bool) :
    step w (.use name start isWrite)
      = ⟨{ s with waiting := ⟨name, start, isWrite⟩ :: s.waiting } :: outer, w.found⟩ := by
  simp [step, hw]

/-- A scope that closes settles the uses of its names and hands the others on. -/
theorem step_leave_cons (hw : w.opened = s :: t :: outer) :
    step w .leave = ⟨{ t with waiting := (settle s).2 ++ t.waiting } :: outer,
      { w.found with uses := (settle s).1 ++ w.found.uses }⟩ := by
  simp [step, hw]

/-- The last scope settles what it can, and the rest are uses of global names. -/
theorem step_leave_last (hw : w.opened = [s]) :
    step w .leave = ⟨[], { w.found with
      uses := ((settle s).2.map fun u => (⟨u.start, u.isWrite, none⟩ : Use)) ++ (settle s).1
        ++ w.found.uses }⟩ := by
  simp [step, hw]

end

-- ============================================================ growth

/-- What a walk can make of another one by some events: the numbers that it holds, and those of all
that it records, were held before or are new. -/
structure Grows (events : List ScopeEvent) (w w' : ScopeWalk) : Prop where
  length : w.found.symbols.length ≤ w'.found.symbols.length
  numbers : ∀ k ∈ numbersOf w'.opened, k ∈ numbersOf w.opened
    ∨ w.found.symbols.length ≤ k ∧ k < w'.found.symbols.length
  uses : ∀ u ∈ w'.found.uses, u ∈ w.found.uses ∨ ∀ k, u.symbol = some k →
    k ∈ numbersOf w.opened ∨ w.found.symbols.length ≤ k ∧ k < w'.found.symbols.length
  declared : ∀ d ∈ w'.found.declared, d ∈ w.found.declared
    ∨ d.1 ∈ events.filterMap ScopeEvent.nameStart?
      ∧ (d.2 ∈ numbersOf w.opened
        ∨ w.found.symbols.length ≤ d.2 ∧ d.2 < w'.found.symbols.length)

theorem Grows.refl (w : ScopeWalk) : Grows [] w w :=
  ⟨Nat.le_refl _, fun _ => .inl, fun _ => .inl, fun _ => .inl⟩

/-- Growth over two rows of events is growth over both. -/
theorem Grows.trans {es es' : List ScopeEvent} {u v w : ScopeWalk} (h : Grows es u v)
    (h' : Grows es' v w) : Grows (es ++ es') u w := by
  have hlength := h.length
  have hlength' := h'.length
  -- what the second walk holds or makes, the first one did, or it is new all the same
  have hnumbers : ∀ k, k ∈ numbersOf v.opened
        ∨ v.found.symbols.length ≤ k ∧ k < w.found.symbols.length →
      k ∈ numbersOf u.opened ∨ u.found.symbols.length ≤ k ∧ k < w.found.symbols.length := by
    intro k hk
    rcases hk with hk | hk
    · exact (h.numbers k hk).imp_right fun hk => ⟨hk.1, by omega⟩
    · exact .inr ⟨by omega, hk.2⟩
  refine ⟨by omega, fun k hk => hnumbers k (h'.numbers k hk), fun a ha => ?_, fun d hd => ?_⟩
  · rcases h'.uses a ha with ha | ha
    · rcases h.uses a ha with ha | ha
      · exact .inl ha
      · refine .inr fun k hk => (ha k hk).imp_right fun hk => ⟨hk.1, by omega⟩
    · exact .inr fun k hk => hnumbers k (ha k hk)
  · rw [List.filterMap_append, List.mem_append]
    rcases h'.declared d hd with hd | ⟨hstart, hd⟩
    · rcases h.declared d hd with hd | ⟨hstart, hd⟩
      · exact .inl hd
      · exact .inr ⟨.inl hstart, hd.imp_right fun hk => ⟨hk.1, by omega⟩⟩
    · exact .inr ⟨.inr hstart, hnumbers d.2 hd⟩

/-- The numbers of a scope's own names. -/
theorem symbol_of_mem_settle {s : OpenScope} {u : Use} (h : u ∈ (settle s).1) :
    (∃ k ∈ s.numbers, u.symbol = some k) ∧ ∃ a ∈ s.waiting, a.start = u.start := by
  obtain ⟨a, ha, heq⟩ := List.mem_filterMap.mp h
  obtain ⟨n, hn, rfl⟩ := Option.map_eq_some_iff.mp heq
  exact ⟨⟨n, List.mem_append_left _ (mem_map_snd_of_lookup hn), rfl⟩, a, ha, rfl⟩

/-- One event grows numbers of its own only. -/
theorem grows_step (w : ScopeWalk) (e : ScopeEvent) : Grows [e] w (step w e) := by
  cases e with
  | enter isWide => exact ⟨Nat.le_refl _, fun _ => .inl, fun _ => .inl, fun _ => .inl⟩
  | use name start isWrite =>
      cases hw : w.opened with
      | nil =>
          have heq : step w (.use name start isWrite) = w := by simp [step, hw]
          rw [heq]
          exact ⟨Nat.le_refl _, fun _ => .inl, fun _ => .inl, fun _ => .inl⟩
      | cons s outer =>
          simp only [step, hw]
          exact ⟨Nat.le_refl _, fun k hk => .inl (hw ▸ hk), fun _ => .inl, fun _ => .inl⟩
  | leave =>
      cases hw : w.opened with
      | nil =>
          have heq : step w .leave = w := by simp [step, hw]
          rw [heq]
          exact ⟨Nat.le_refl _, fun _ => .inl, fun _ => .inl, fun _ => .inl⟩
      | cons s outer =>
          -- what settles has a number of the scope that closes, which was open before
          have hsettled : ∀ u ∈ (settle s).1, ∀ k, u.symbol = some k →
              k ∈ numbersOf w.opened := by
            intro u hu k hk
            obtain ⟨⟨n, hn, heq⟩, -⟩ := symbol_of_mem_settle hu
            obtain rfl := Option.some.inj (heq.symm.trans hk)
            rw [hw]
            exact List.mem_append_left _ hn
          cases outer with
          | nil =>
              simp only [step, hw]
              refine ⟨Nat.le_refl _, fun k hk => absurd hk List.not_mem_nil, fun u hu => ?_,
                fun _ => .inl⟩
              simp only [List.mem_append, List.mem_map] at hu
              rcases hu with (⟨a, -, rfl⟩ | hu) | hu
              · -- a use of a global name has no number
                exact .inr fun _ h => by cases h
              · exact .inr fun k hk => .inl (hsettled u hu k hk)
              · exact .inl hu
          | cons t outer =>
              simp only [step, hw]
              refine ⟨Nat.le_refl _, fun k hk => .inl ?_, fun u hu => ?_, fun _ => .inl⟩
              · rw [hw]
                exact List.mem_append_right _ hk
              · rcases List.mem_append.mp hu with hu | hu
                · exact .inr fun k hk => .inl (hsettled u hu k hk)
                · exact .inl hu
  | introduce name span how =>
      cases hfits : fits how.reach (w.opened.map (·.isWide)) with
      | false =>
          rw [step_introduce_of_not_fits hfits]
          exact ⟨Nat.le_refl _, fun _ => .inl, fun _ => .inl, fun _ => .inl⟩
      | true =>
          have hw : w.opened = w.opened ++ [] := (List.append_nil _).symm
          obtain ⟨near', n, hopened, -, hnumbers, hfound⟩ :=
            step_introduce_of_fits name span hw hfits
          rw [List.append_nil] at hopened
          rcases hfound with ⟨hn, heq⟩ | ⟨rfl, heq⟩
          · -- a symbol that an open scope holds is declared again
            have hlength : (again w.found span n).symbols.length = w.found.symbols.length := by
              simp [again, redeclare]
            refine ⟨by rw [heq]; exact Nat.le_of_eq hlength.symm, fun k hk => .inl ?_,
              fun u hu => .inl (by rwa [heq] at hu), fun d hd => ?_⟩
            · rcases hnumbers k (hopened ▸ hk) with rfl | hk
              · exact hn
              · exact hk
            · rw [heq] at hd
              rcases List.mem_cons.mp hd with rfl | hd
              · exact .inr ⟨by simp [ScopeEvent.nameStart?], .inl hn⟩
              · exact .inl hd
          · -- a new symbol has the next number
            have hlength : (withSymbol w.found name span how).symbols.length
                = w.found.symbols.length + 1 := by
              simp [withSymbol]
            refine ⟨by rw [heq, hlength]; omega, fun k hk => ?_,
              fun u hu => .inl (by rwa [heq] at hu), fun d hd => ?_⟩
            · rcases hnumbers k (hopened ▸ hk) with rfl | hk
              · exact .inr ⟨Nat.le_refl _, by rw [heq, hlength]; omega⟩
              · exact .inl hk
            · rw [heq] at hd
              rcases List.mem_cons.mp hd with rfl | hd
              · exact .inr ⟨by simp [ScopeEvent.nameStart?], .inr ⟨Nat.le_refl _, by
                  rw [heq, hlength]
                  exact Nat.lt_succ_self _⟩⟩
              · exact .inl hd

/-- What a walk along some events can make. -/
theorem grows_walk (events : List ScopeEvent) (w : ScopeWalk) :
    Grows events w (events.foldl step w) := by
  induction events generalizing w with
  | nil => exact .refl w
  | cons e events ih => exact (grows_step w e).trans (ih (step w e))

/-- All numbers that a walk holds or has recorded are those of symbols. -/
structure Valid (w : ScopeWalk) : Prop where
  numbers : ∀ k ∈ numbersOf w.opened, k < w.found.symbols.length
  uses : ∀ u ∈ w.found.uses, ∀ k, u.symbol = some k → k < w.found.symbols.length
  declared : ∀ d ∈ w.found.declared, d.2 < w.found.symbols.length

theorem valid_start : Valid start := ⟨nofun, nofun, nofun⟩

/-- Growth keeps every number that of a symbol. -/
theorem Valid.walk {w w' : ScopeWalk} {events : List ScopeEvent} (h : Valid w)
    (hgrows : Grows events w w') : Valid w' := by
  have hlength := hgrows.length
  have hnumbers : ∀ k, k ∈ numbersOf w.opened
        ∨ w.found.symbols.length ≤ k ∧ k < w'.found.symbols.length →
      k < w'.found.symbols.length := by
    intro k hk
    rcases hk with hk | hk
    · exact Nat.lt_of_lt_of_le (h.numbers k hk) hlength
    · exact hk.2
  refine ⟨fun k hk => hnumbers k (hgrows.numbers k hk), fun u hu k hk => ?_, fun d hd => ?_⟩
  · rcases hgrows.uses u hu with hu | hu
    · exact Nat.lt_of_lt_of_le (h.uses u hu k hk) hlength
    · exact hnumbers k (hu k hk)
  · rcases hgrows.declared d hd with hd | ⟨-, hd⟩
    · exact Nat.lt_of_lt_of_le (h.declared d hd) hlength
    · exact hnumbers d.2 hd

end ScopeWalk

end Graft
