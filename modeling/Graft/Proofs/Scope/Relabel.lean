import Graft.Proofs.Scope.Symbols
import Graft.Proofs.Tree.Relabel
/-!
The names of a relabelled program.

The walk along the events of a program compares names and numbers of symbols; it carries offsets
along and never looks at them. So a relabelled program has the relabelled bindings
(`Bindings.ofProgram_relabel`), and where the labels tell two offsets apart, what is asked for by
the label is what was asked for by the offset (`Bindings.useAt?_relabel`,
`Bindings.symbolOfName?_relabel`).
-/
namespace Graft

-- ============================================================ events

/-- How names are introduced in a relabelled program. -/
def Introduction.relabel (σ : TextMap) (f : NodeKey → Nat) (how : Introduction) : Introduction :=
  ⟨how.reach, how.value.map (Node.relabel σ f)⟩

/-- An event of a relabelled program. -/
def ScopeEvent.relabel (σ : TextMap) (f : NodeKey → Nat) : ScopeEvent → ScopeEvent
  | .enter isWide => .enter isWide
  | .leave => .leave
  | .introduce name span how => .introduce name ⟨f (.name span.start), 0⟩ (how.relabel σ f)
  | .use name start isWrite => .use name (f (.use start)) isWrite

namespace ScopeEvent

variable {σ : TextMap} {f : NodeKey → Nat}

theorem map_relabel_inScope (isWide : Bool) (inside : List ScopeEvent) :
    (inScope isWide inside).map (relabel σ f) = inScope isWide (inside.map (relabel σ f)) := by
  simp [inScope, relabel]

/-- What holds of the events of every child holds of those of all children. -/
theorem all_relabel {children : List Node}
    (h : ∀ k ∈ children, ∀ how, (k.relabel σ f).fold algebra (how.relabel σ f)
      = (k.fold algebra how).map (relabel σ f)) (how : Introduction) :
    all ((children.map (Node.relabel σ f)).map fun k => (k, k.fold algebra)) (how.relabel σ f)
      = (all (children.map fun k => (k, k.fold algebra)) how).map (relabel σ f) := by
  unfold all
  rw [List.map_map, List.flatMap_map, List.flatMap_map, List.map_flatMap]
  exact List.flatMap_congr fun k hk => h k hk how

/-- The events of a relabelled tree are the relabelled events. -/
theorem fold_relabel (t : Node) : ∀ how : Introduction,
    (t.relabel σ f).fold algebra (how.relabel σ f) = (t.fold algebra how).map (relabel σ f) := by
  induction t with
  | node form span children ih =>
      intro how
      have hall : ∀ how, all ((children.map (Node.relabel σ f)).map fun k => (k, k.fold algebra))
          (how.relabel σ f)
            = (all (children.map fun k => (k, k.fold algebra)) how).map (relabel σ f) :=
        all_relabel ih
      have hscope : ∀ isWide, inScope isWide
          (all ((children.map (Node.relabel σ f)).map fun k => (k, k.fold algebra)) (plain .near))
            = (inScope isWide (all (children.map fun k => (k, k.fold algebra))
                (plain .near))).map (relabel σ f) := by
        intro isWide
        rw [map_relabel_inScope]
        exact congrArg _ (hall (plain .near))
      rw [Node.relabel_node, Node.fold_node, Node.fold_node]
      cases form with
      | identifier name => rfl
      | binding name => rfl
      | arrow _ _ _ _ | staticBlock | program _ => exact hscope true
      | classValue | block | «for» | forIn | forOf _ | «catch» => exact hscope false
      | variableDeclaration kind => exact hall (plain (reachOf kind))
      | importFrom _ _ => exact hall (plain .near)
      -- the first child stands outside of the scope, or names what the scope is of
      | method _ _ _ _ | «switch» =>
          cases children with
          | nil => rfl
          | cons first rest =>
              have hfirst := ih first List.mem_cons_self how
              have hrest := all_relabel (fun k hk => ih k (List.mem_cons_of_mem _ hk)) (plain .near)
              refine Eq.trans ?_ (List.map_append ..).symm
              rw [map_relabel_inScope]
              exact congr (congrArg _ hfirst) (congrArg _ hrest)
      | functionDeclaration _ _ | classDeclaration =>
          cases children with
          | nil => rfl
          | cons first rest =>
              have hfirst := ih first List.mem_cons_self (plain .near)
              have hrest := all_relabel (fun k hk => ih k (List.mem_cons_of_mem _ hk)) (plain .near)
              refine Eq.trans ?_ (List.map_append ..).symm
              rw [map_relabel_inScope]
              exact congr (congrArg _ hfirst) (congrArg _ hrest)
      | function _ _ _ =>
          cases children with
          | nil => rfl
          | cons first rest =>
              have hfirst := ih first List.mem_cons_self (plain .own)
              have hrest := all_relabel (fun k hk => ih k (List.mem_cons_of_mem _ hk)) (plain .near)
              refine Eq.trans ?_ (map_relabel_inScope ..).symm
              refine congrArg (inScope true) (Eq.trans ?_ (List.map_append ..).symm)
              exact congr (congrArg _ hfirst) hrest
      | place =>
          match children with
          | [] => rfl
          | [.node form span children] =>
              have htarget := ih _ List.mem_cons_self how
              cases form with
              | identifier name => rfl
              | _ => exact htarget
          | _ :: _ :: _ => exact hall how
      | declarator =>
          match children with
          | [] => rfl
          | [_] => exact hall how
          | [pattern, value] =>
              have hvalue := ih value (by simp) (plain .near)
              have hinit : (if value.isAbsent then none else some value).map (Node.relabel σ f)
                  = if (value.relabel σ f).isAbsent then none else some (value.relabel σ f) := by
                rw [Node.isAbsent_relabel]
                split <;> rfl
              have hpattern := ih pattern (by simp)
                ⟨how.reach, if value.isAbsent then none else some value⟩
              refine Eq.trans ?_ (List.map_append ..).symm
              refine congr (congrArg _ (Eq.trans ?_ hpattern)) hvalue
              exact congrArg
                (fun init => (pattern.relabel σ f).fold algebra ⟨how.reach, init⟩) hinit.symm
          | _ :: _ :: _ :: _ => exact hall how
      | _ => exact hall how

/-- The events of a relabelled program. -/
theorem ofProgram_relabel (t : Node) :
    ofProgram (t.relabel σ f) = (ofProgram t).map (relabel σ f) :=
  fold_relabel t (plain .near)

end ScopeEvent

-- ============================================================ walks

/-- A use of a relabelled program. -/
def Use.relabel (f : NodeKey → Nat) (u : Use) : Use := ⟨f (.use u.start), u.isWrite, u.symbol⟩

/-- A symbol of a relabelled program. -/
def Symbol.relabel (σ : TextMap) (f : NodeKey → Nat) (s : Symbol) : Symbol :=
  { s with span := ⟨f (.name s.span.start), 0⟩, value := s.value.map (Node.relabel σ f) }

/-- The bindings of a relabelled program. -/
def Bindings.relabel (σ : TextMap) (f : NodeKey → Nat) (b : Bindings) : Bindings where
  symbols := b.symbols.map (Symbol.relabel σ f)
  declared := b.declared.map fun d => (f (.name d.1), d.2)
  uses := b.uses.map (Use.relabel f)

/-- A use that waits in a relabelled program. -/
def WaitingUse.relabel (f : NodeKey → Nat) (u : WaitingUse) : WaitingUse :=
  ⟨u.name, f (.use u.start), u.isWrite⟩

/-- An open scope of a relabelled program. -/
def OpenScope.relabel (f : NodeKey → Nat) (s : OpenScope) : OpenScope :=
  { s with waiting := s.waiting.map (WaitingUse.relabel f) }

/-- A walk along a relabelled program. -/
def ScopeWalk.relabel (σ : TextMap) (f : NodeKey → Nat) (w : ScopeWalk) : ScopeWalk :=
  ⟨w.opened.map (OpenScope.relabel f), w.found.relabel σ f⟩

namespace ScopeWalk

variable {σ : TextMap} {f : NodeKey → Nat}

/-- To declare a symbol again and to relabel can be done in either order. -/
theorem again_relabel (b : Bindings) (span : Span) (n : Nat) :
    again (b.relabel σ f) ⟨f (.name span.start), 0⟩ n = (again b span n).relabel σ f := by
  have hsymbols : redeclare (b.symbols.map (Symbol.relabel σ f)) n
      = (redeclare b.symbols n).map (Symbol.relabel σ f) := by
    refine List.ext_getElem? fun i => ?_
    simp only [redeclare, List.getElem?_modify, List.getElem?_map]
    cases b.symbols[i]? with
    | none => rfl
    | some s => split <;> rfl
  simp only [again, Bindings.relabel, hsymbols, List.map_cons]

theorem withSymbol_relabel (b : Bindings) (name : String) (span : Span) (how : Introduction) :
    withSymbol (b.relabel σ f) name ⟨f (.name span.start), 0⟩ (how.relabel σ f)
      = (withSymbol b name span how).relabel σ f := by
  simp [withSymbol, newSymbol, Bindings.relabel, Symbol.relabel, Introduction.relabel]

/-- To introduce a name in a scope and to relabel can be done in either order. -/
theorem introduceIn_relabel (s : OpenScope) (b : Bindings) (name : String) (span : Span)
    (how : Introduction) :
    introduceIn (s.relabel f) (b.relabel σ f) name ⟨f (.name span.start), 0⟩ (how.relabel σ f)
      = ((introduceIn s b name span how).1.relabel f,
          (introduceIn s b name span how).2.1.relabel σ f, (introduceIn s b name span how).2.2) := by
  have hown : (fun n : Nat => !((b.relabel σ f).symbols[n]?).any fun (s : Symbol) => s.isOwn)
      = fun n : Nat => !(b.symbols[n]?).any fun (s : Symbol) => s.isOwn := by
    funext n
    simp only [Bindings.relabel, List.getElem?_map, Option.any_map]
    rfl
  have hfind : (s.relabel f).find? name = s.find? name := rfl
  unfold introduceIn
  rw [hfind, hown]
  cases (s.find? name).filter fun n => !(b.symbols[n]?).any fun (s : Symbol) => s.isOwn with
  | some n => exact congrArg _ (congrArg (·, n) (again_relabel ..))
  | none =>
      have hlength : (b.relabel σ f).symbols.length = b.symbols.length := by
        simp [Bindings.relabel]
      have hsymbol := withSymbol_relabel (σ := σ) (f := f) b name span how
      simp only [withSymbol, newSymbol, hlength] at hsymbol
      simp only [hlength]
      exact congrArg _ (congrArg (·, b.symbols.length) hsymbol)

/-- So can introducing a name in the nearest wide scope. -/
theorem introduceWide_relabel (name : String) (span : Span) (how : Introduction) (b : Bindings)
    (scopes : List OpenScope) :
    introduceWide name ⟨f (.name span.start), 0⟩ (how.relabel σ f) (b.relabel σ f)
        (scopes.map (OpenScope.relabel f))
      = ((introduceWide name span how b scopes).1.map (OpenScope.relabel f),
          (introduceWide name span how b scopes).2.relabel σ f) := by
  have htake : (scopes.map (OpenScope.relabel f)).takeWhile (!·.isWide)
      = (scopes.takeWhile (!·.isWide)).map (OpenScope.relabel f) := List.takeWhile_map ..
  have hdrop : (scopes.map (OpenScope.relabel f)).dropWhile (!·.isWide)
      = (scopes.dropWhile (!·.isWide)).map (OpenScope.relabel f) := List.dropWhile_map ..
  have hfind : ((scopes.takeWhile (!·.isWide)).map (OpenScope.relabel f)).findSome? (·.find? name)
      = (scopes.takeWhile (!·.isWide)).findSome? (·.find? name) := List.findSome?_map ..
  unfold introduceWide
  simp only [htake, hdrop, hfind]
  cases scopes.dropWhile (!·.isWide) with
  | nil => rfl
  | cons target outer =>
      simp only [List.map_cons]
      cases (scopes.takeWhile (!·.isWide)).findSome? (·.find? name) with
      | some n =>
          dsimp only
          have hnames : (target.relabel f).names = target.names := rfl
          rw [hnames, again_relabel]
          split
          · simp only [List.map_append, List.map_map, List.map_cons]
            rfl
          · simp only [List.map_append, List.map_map, List.map_cons]
            rfl
      | none =>
          dsimp only
          rw [introduceIn_relabel]
          simp only [List.map_append, List.map_map, List.map_cons]
          rfl

/-- To close a scope and to relabel can be done in either order. -/
theorem settle_relabel (s : OpenScope) :
    settle (s.relabel f) = ((settle s).1.map (Use.relabel f),
      (settle s).2.map (WaitingUse.relabel f)) := by
  unfold settle
  rw [OpenScope.relabel, List.filterMap_map, List.map_filterMap, List.filter_map]
  congr 2
  funext u
  simp only [Function.comp_def, Option.map_map]
  rfl

/-- One event of a relabelled program. -/
theorem step_relabel (w : ScopeWalk) (e : ScopeEvent) :
    step (w.relabel σ f) (e.relabel σ f) = (step w e).relabel σ f := by
  obtain ⟨opened, found⟩ := w
  cases e with
  | enter isWide => rfl
  | use name start isWrite =>
      cases opened with
      | nil => rfl
      | cons s outer => rfl
  -- a wide introduction reaches the outer scopes, any other one the innermost only
  | introduce name span how =>
      by_cases hreach : how.reach = .wide
      · have hreach' : (how.relabel σ f).reach = .wide := hreach
        rw [ScopeEvent.relabel, step_introduce_wide hreach, step_introduce_wide hreach']
        simp only [relabel, introduceWide_relabel]
      · have hreach' : (how.relabel σ f).reach ≠ .wide := hreach
        cases opened with
        | nil =>
            rw [ScopeEvent.relabel, step_introduce_nil hreach rfl,
              step_introduce_nil hreach' rfl]
        | cons s outer =>
            rw [ScopeEvent.relabel, step_introduce_cons hreach rfl,
              step_introduce_cons hreach' rfl]
            simp only [relabel, introduceIn_relabel, List.map_cons]
  -- a scope that closes settles its names in the scope around it, or among the globals
  | leave =>
      cases opened with
      | nil => rfl
      | cons s outer =>
          have hsettle := settle_relabel (f := f) s
          cases outer with
          | nil =>
              simp only [ScopeEvent.relabel, relabel, List.map_cons, List.map_nil, step, hsettle,
                Bindings.relabel, List.map_append, List.map_map]
              rfl
          | cons t outer =>
              simp only [ScopeEvent.relabel, relabel, List.map_cons, step, hsettle,
                Bindings.relabel, List.map_append]
              simp only [OpenScope.relabel, List.map_append]

/-- A walk along relabelled events is the relabelled walk. -/
theorem walk_relabel (events : List ScopeEvent) (w : ScopeWalk) :
    (events.map (ScopeEvent.relabel σ f)).foldl step (w.relabel σ f)
      = (events.foldl step w).relabel σ f := by
  induction events generalizing w with
  | nil => rfl
  | cons e events ih =>
      rw [List.map_cons, List.foldl_cons, List.foldl_cons, step_relabel, ih]

end ScopeWalk

-- ============================================================ bindings

namespace Bindings

variable {σ : TextMap} {f : NodeKey → Nat}

/-- The bindings of a relabelled program are the relabelled bindings. -/
theorem ofProgram_relabel (t : Node) : ofProgram (t.relabel σ f) = (ofProgram t).relabel σ f := by
  have h := ScopeWalk.walk_relabel (σ := σ) (f := f) (ScopeEvent.ofProgram t) .start
  rw [ofProgram, ofProgram, ScopeEvent.ofProgram_relabel]
  exact congrArg ScopeWalk.found h

/-- A use is found by its label, if the label is that of no other use. -/
theorem useAt?_relabel (b : Bindings) {start : Nat}
    (h : ∀ s, f (.use s) = f (.use start) → s = start) :
    (b.relabel σ f).useAt? (f (.use start)) = (b.useAt? start).map (Use.relabel f) := by
  rw [useAt?, useAt?, relabel, List.find?_map]
  congr 1
  refine congrArg (List.find? · b.uses) (funext fun u => ?_)
  exact Bool.eq_iff_iff.mpr
    ⟨fun hu => beq_iff_eq.mpr (h _ (beq_iff_eq.mp hu)),
      fun hu => beq_iff_eq.mpr (congrArg (fun s => f (.use s)) (beq_iff_eq.mp hu))⟩

/-- A use belongs to the same symbol under its new label, if no other use has that label. -/
theorem symbolOfUse?_relabel (b : Bindings) {start : Nat}
    (h : ∀ s, f (.use s) = f (.use start) → s = start) :
    (b.relabel σ f).symbolOfUse? (f (.use start)) = b.symbolOfUse? start := by
  rw [symbolOfUse?, useAt?_relabel b h, Option.bind_map]
  rfl

/-- It is global under its new label just when it was. -/
theorem isGlobalUse_relabel (b : Bindings) {start : Nat}
    (h : ∀ s, f (.use s) = f (.use start) → s = start) :
    (b.relabel σ f).isGlobalUse (f (.use start)) = b.isGlobalUse start := by
  rw [isGlobalUse, useAt?_relabel b h, Option.any_map]
  rfl

/-- A declaration is found by its label, if the label is that of no other declaration. -/
theorem symbolOfName?_relabel (b : Bindings) {start : Nat}
    (h : ∀ s, f (.name s) = f (.name start) → s = start) :
    (b.relabel σ f).symbolOfName? (f (.name start)) = b.symbolOfName? start := by
  rw [symbolOfName?, symbolOfName?, relabel]
  dsimp only
  induction b.declared with
  | nil => rfl
  | cons d ds ih =>
      rw [List.map_cons, List.lookup_cons, List.lookup_cons, ih]
      have hbeq : (f (.name start) == f (.name d.1)) = (start == d.1) :=
        Bool.eq_iff_iff.mpr
          ⟨fun hd => beq_iff_eq.mpr (h _ (beq_iff_eq.mp hd).symm).symm,
            fun hd => beq_iff_eq.mpr (congrArg (fun s => f (.name s)) (beq_iff_eq.mp hd))⟩
      rw [hbeq]

theorem isWritten_relabel (b : Bindings) (n : Nat) :
    (b.relabel σ f).isWritten n = b.isWritten n := by
  rw [isWritten, isWritten, relabel, List.any_map]
  rfl

theorem useCount_relabel (b : Bindings) (n : Nat) :
    (b.relabel σ f).useCount n = b.useCount n := by
  rw [useCount, useCount, relabel, List.countP_map]
  rfl

end Bindings

end Graft
