import Graft.Scope.Event
/-!
Names and what they stand for.

The events of a program are followed with a stack of open scopes. A use waits in its scope until the
scope closes; then it either belongs to a name of the scope or moves on outwards, so a name is found
also before its declaration. A second declaration of a name in a scope makes no second symbol, it
only marks the first one as redeclared.

A name goes to the innermost scope, but for `var`, which goes to the innermost wide one. On its way
there it passes the scopes in between, which remember it, so that a later declaration of the name in
one of them is one of the same symbol. Where a scope on the way has the name already, that symbol is
declared again and moves to the wide scope.

Symbols are numbered in the order in which they are met, and everything else speaks of them by
number: scopes, declarations by the offset of the name, and uses by the offset of the use. A use
that moves out of the last scope is one of a global name.
-/
namespace Graft

/-- What a declared name stands for. -/
structure Symbol where
  name : String
  /-- Where the name was first declared. -/
  span : Span
  /-- The initial value of the declarator that first declared the name. -/
  value : Option Node
  /-- Whether this is the name that a function value bears. -/
  isOwn : Bool
  redeclared : Bool
deriving Repr, Inhabited

/-- A use of a name: where it is, whether it assigns, and the number of the symbol it belongs to;
none for a name that nothing in the program declares. -/
structure Use where
  start : Nat
  isWrite : Bool
  symbol : Option Nat
deriving DecidableEq, Repr, Inhabited

/-- A use whose scope is still open. -/
structure WaitingUse where
  name : String
  start : Nat
  isWrite : Bool
deriving DecidableEq, Repr

/-- A scope that has not closed yet. Names stand for the numbers of symbols. -/
structure OpenScope where
  isWide : Bool
  names : List (String × Nat)
  /-- The names that a `var` inside this scope has taken through it on the way out. -/
  passing : List (String × Nat)
  waiting : List WaitingUse
deriving Repr

/-- The names of a program. -/
structure Bindings where
  /-- The symbols, in the order in which they were met. -/
  symbols : List Symbol
  /-- The symbol of every declaration, by the offset of the name. -/
  declared : List (Nat × Nat)
  uses : List Use
deriving Repr

/-- The state of the walk along the events. -/
structure ScopeWalk where
  /-- The open scopes, innermost first. -/
  opened : List OpenScope
  found : Bindings

namespace OpenScope

/-- The number that a name of an open scope stands for, or that has passed through it. -/
def find? (s : OpenScope) (name : String) : Option Nat :=
  s.names.lookup name <|> s.passing.lookup name

/-- Adds a name to a scope, in place of one that it had before. -/
def put (s : OpenScope) (name : String) (symbol : Nat) : OpenScope :=
  { s with names := (name, symbol) :: s.names.filter fun e => e.1 != name }

end OpenScope

namespace ScopeWalk

/-- Before the first event. -/
def start : ScopeWalk := ⟨[], ⟨[], [], []⟩⟩

/-- Marks a symbol as redeclared. -/
def redeclare (symbols : List Symbol) (n : Nat) : List Symbol :=
  symbols.modify n fun s => { s with redeclared := true }

/-- A second declaration of a symbol. -/
def again (b : Bindings) (span : Span) (n : Nat) : Bindings :=
  { b with symbols := redeclare b.symbols n, declared := (span.start, n) :: b.declared }

/-- Introduces a name in one scope: the scope, the bindings, and the number of the symbol. -/
def introduceIn (s : OpenScope) (b : Bindings) (name : String) (span : Span)
    (how : Introduction) : OpenScope × Bindings × Nat :=
  let old := (s.find? name).filter fun n => !(b.symbols[n]?).any fun (s : Symbol) => s.isOwn
  match old with
  | some n => (s, again b span n, n)
  | none =>
      let n := b.symbols.length
      let symbol : Symbol :=
        { name := name, span := span, value := how.value, isOwn := how.reach == Reach.own
          redeclared := false }
      (s.put name n,
        { b with symbols := b.symbols ++ [symbol], declared := (span.start, n) :: b.declared }, n)

/-- Introduces a name as `var` does, given the scopes from the innermost on. The name goes to the
first wide scope, unless a scope on the way has it: then that symbol is redeclared, and moves to
the wide scope. -/
def introduceWide (name : String) (span : Span) (how : Introduction) (b : Bindings)
    (scopes : List OpenScope) : List OpenScope × Bindings :=
  let inner := scopes.takeWhile (!·.isWide)
  match scopes.dropWhile (!·.isWide) with
  | [] => (scopes, b)
  | target :: outer =>
      let pass (n : Nat) (s : OpenScope) : OpenScope :=
        { s with passing := (name, n) :: s.passing }
      match inner.findSome? fun (s : OpenScope) => s.find? name with
      | some n =>
          if (target.names.lookup name).isSome then
            (inner.map (pass n) ++ target :: outer, again b span n)
          else
            let drop (s : OpenScope) : OpenScope :=
              { s with names := s.names.filter fun e => !(e.1 == name && e.2 == n) }
            (inner.map (fun s => pass n (drop s)) ++ target.put name n :: outer,
              again b span n)
      | none =>
          let (target, b, n) := introduceIn target b name span how
          (inner.map (pass n) ++ target :: outer, b)

/-- Closes a scope: the uses that belong to it, and those that move on. -/
def settle (s : OpenScope) : List Use × List WaitingUse :=
  (s.waiting.filterMap fun u =>
      (s.names.lookup u.name).map fun n => ⟨u.start, u.isWrite, some n⟩,
    s.waiting.filter fun u => (s.names.lookup u.name).isNone)

/-- One event. -/
def step (w : ScopeWalk) : ScopeEvent → ScopeWalk
  | .enter isWide => { w with opened := ⟨isWide, [], [], []⟩ :: w.opened }
  | .use name start isWrite =>
      match w.opened with
      | s :: outer =>
          { w with opened := { s with waiting := ⟨name, start, isWrite⟩ :: s.waiting } :: outer }
      | [] => w
  | .introduce name span how =>
      match how.reach, w.opened with
      | .wide, scopes =>
          let (scopes, b) := introduceWide name span how w.found scopes
          ⟨scopes, b⟩
      | _, s :: outer =>
          let (s, b, _) := introduceIn s w.found name span how
          ⟨s :: outer, b⟩
      | _, [] => w
  | .leave =>
      match w.opened with
      | s :: outer =>
          let (settled, moving) := settle s
          match outer with
          | t :: outer =>
              { opened := { t with waiting := moving ++ t.waiting } :: outer
                found := { w.found with uses := settled ++ w.found.uses } }
          | [] =>
              let global := moving.map fun u => (⟨u.start, u.isWrite, none⟩ : Use)
              { opened := [], found := { w.found with uses := global ++ settled ++ w.found.uses } }
      | [] => w

end ScopeWalk

namespace Bindings

/-- The names of a program. -/
def ofProgram (tree : Node) : Bindings :=
  ((ScopeEvent.ofProgram tree).foldl ScopeWalk.step ScopeWalk.start).found

/-- The use of a name at an offset. -/
def useAt? (b : Bindings) (start : Nat) : Option Use := b.uses.find? fun u => u.start == start

/-- The symbol that a use at an offset belongs to. -/
def symbolOfUse? (b : Bindings) (start : Nat) : Option Nat := (b.useAt? start).bind Use.symbol

/-- Whether a name is used at an offset that nothing in the program declares. -/
def isGlobalUse (b : Bindings) (start : Nat) : Bool :=
  (b.useAt? start).any fun u => u.symbol.isNone

/-- The symbol that a declaration at an offset introduces. -/
def symbolOfName? (b : Bindings) (start : Nat) : Option Nat := b.declared.lookup start

/-- Whether a symbol is assigned to after its declaration. -/
def isWritten (b : Bindings) (n : Nat) : Bool :=
  b.uses.any fun u => u.symbol == some n && u.isWrite

/-- How often a symbol is used. -/
def useCount (b : Bindings) (n : Nat) : Nat := b.uses.countP fun u => u.symbol == some n

end Bindings

end Graft
