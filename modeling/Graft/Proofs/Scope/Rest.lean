import Graft.Proofs.Scope.Cut
/-!
The walk along the rest of a program.

An enclosed segment leaves no name in the scopes around it. So when such segments are cut out of a
program, the walk along the rest goes as the walk along the whole goes: it is among what is left of
the same scopes, and has found what remains of the same names (`ScopeWalk.Left`).

# One event, one segment

- One event that stays preserves this (`ScopeWalk.Left.step`). It adds what stays, and what is left
  of the scopes takes it as the scopes do.
- So does a whole segment, which the rest does not have (`ScopeWalk.Left.skip`). Of the walk along
  the segment nothing is left: the scopes around it hold what they held, and all that it adds goes
  (`ScopeWalk.Skips`).

Along with it goes that every symbol that the walk can still speak of stays (`ScopeWalk.Kept`).

# Programs

In the end the names of the rest are what remains of the names of the program
(`Bindings.left_of_cut`), and a symbol that stays is used where it was used before, but for the uses
that are gone (`Bindings.useCount_of_cut`).
-/
namespace Graft

namespace ScopeWalk

open OpenScope

-- ============================================================ what events add

/-- What is known of a symbol from its first declaration on. -/
def mark (s : Symbol) : Nat × Bool := (s.span.start, s.isOwn)

/-- Some events only add declarations and symbols, at offsets of names that they introduce. -/
structure Adds (events : List ScopeEvent) (b b' : Bindings) : Prop where
  declared : ∃ ds, b'.declared = ds ++ b.declared
    ∧ ∀ d ∈ ds, d.1 ∈ events.filterMap ScopeEvent.nameStart?
  symbols : ∃ ms, b'.symbols.map mark = b.symbols.map mark ++ ms
    ∧ ∀ m ∈ ms, m.1 ∈ events.filterMap ScopeEvent.nameStart?

/-- One event adds at most one declaration and at most one symbol. -/
theorem adds_step (w : ScopeWalk) (e : ScopeEvent) : Adds [e] w.found (step w e).found := by
  rcases step_found_cases w e with ⟨hsymbols, hdeclared⟩ | ⟨name, span, how, rfl, hfound⟩
  · exact ⟨⟨[], by rw [hdeclared, List.nil_append], nofun⟩,
      ⟨[], by rw [hsymbols, List.append_nil], nofun⟩⟩
  · rcases hfound with ⟨n, heq⟩ | heq
    · rw [heq]
      refine ⟨⟨[(span.start, n)], rfl, by simp [ScopeEvent.nameStart?]⟩, ⟨[], ?_, nofun⟩⟩
      refine List.ext_getElem? fun i => ?_
      simp only [again, redeclare, List.getElem?_map, List.getElem?_modify, List.append_nil]
      cases w.found.symbols[i]? with
      | none => rfl
      | some s => by_cases hi : n = i <;> simp [hi, mark]
    · rw [heq]
      exact ⟨⟨[(span.start, w.found.symbols.length)], rfl, by simp [ScopeEvent.nameStart?]⟩,
        ⟨[mark (newSymbol name span how)], by simp [withSymbol],
          by simp [ScopeEvent.nameStart?, mark, newSymbol]⟩⟩

/-- What two rows of events add, both together add. -/
theorem Adds.trans {es es' : List ScopeEvent} {a b c : Bindings} (h : Adds es a b)
    (h' : Adds es' b c) : Adds (es ++ es') a c := by
  obtain ⟨⟨ds, hds, hdstarts⟩, ms, hms, hmstarts⟩ := h
  obtain ⟨⟨ds', hds', hdstarts'⟩, ms', hms', hmstarts'⟩ := h'
  refine ⟨⟨ds' ++ ds, by rw [hds', hds, List.append_assoc], fun d hd => ?_⟩,
    ⟨ms ++ ms', by rw [hms', hms, List.append_assoc], fun m hm => ?_⟩⟩
  · rw [List.filterMap_append]
    rcases List.mem_append.mp hd with hd | hd
    · exact List.mem_append_right _ (hdstarts' d hd)
    · exact List.mem_append_left _ (hdstarts d hd)
  · rw [List.filterMap_append]
    rcases List.mem_append.mp hm with hm | hm
    · exact List.mem_append_left _ (hmstarts m hm)
    · exact List.mem_append_right _ (hmstarts' m hm)

/-- What a walk along some events adds. -/
theorem adds_walk (events : List ScopeEvent) (w : ScopeWalk) :
    Adds events w.found (events.foldl step w).found := by
  induction events generalizing w with
  | nil => exact ⟨⟨[], rfl, nofun⟩, ⟨[], (List.append_nil _).symm, nofun⟩⟩
  | cons e events ih => exact (adds_step w e).trans (ih (step w e))

/-- What follows a cutting after some events followed it before. -/
theorem Adds.follows {events : List ScopeEvent} {b b' : Bindings} {c : Cutting}
    (h : Adds events b b') (hf : c.Follows b') : c.Follows b := by
  obtain ⟨ms, hms, -⟩ := h.symbols
  have hstarts : b'.symbols.map (·.span.start) = b.symbols.map (·.span.start) ++ ms.map Prod.fst := by
    have := congrArg (List.map Prod.fst) hms
    simpa [mark, Function.comp_def] using this
  rw [Cutting.Follows, hstarts] at hf
  exact (List.prefix_append ..).trans hf

/-- A symbol that some events add is first declared by a name that they introduce. -/
theorem Adds.first {events : List ScopeEvent} {b b' : Bindings} {c : Cutting}
    (h : Adds events b b') (hf : c.Follows b') {k : Nat} (hlo : b.symbols.length ≤ k)
    (hhi : k < b'.symbols.length) :
    ∃ start ∈ events.filterMap ScopeEvent.nameStart?, c.first[k]? = some start := by
  obtain ⟨ms, hms, hmstarts⟩ := h.symbols
  have hget : (b'.symbols.map mark)[k]? = ms[k - b.symbols.length]? := by
    rw [hms, List.getElem?_append_right (by simpa using hlo), List.length_map]
  have hmark : ms[k - b.symbols.length]? = some (mark b'.symbols[k]) := by
    rw [← hget, List.getElem?_map, List.getElem?_eq_getElem hhi, Option.map_some]
  refine ⟨_, hmstarts _ (List.mem_of_getElem? hmark), ?_⟩
  obtain ⟨more, hmore⟩ := hf
  rw [← hmore, List.getElem?_append_left (by simpa using hhi), List.getElem?_map,
    List.getElem?_eq_getElem hhi]
  rfl

-- ============================================================ events that go or stay

/-- Whether all names and uses of some events go. -/
structure Takes (c : Cutting) (events : List ScopeEvent) : Prop where
  uses : ∀ start ∈ events.filterMap ScopeEvent.useStart?, start ∈ c.uses
  names : ∀ start ∈ events.filterMap ScopeEvent.nameStart?, start ∈ c.names

/-- Whether no name and no use of some events goes. -/
structure Spares (c : Cutting) (events : List ScopeEvent) : Prop where
  uses : ∀ start ∈ events.filterMap ScopeEvent.useStart?, start ∉ c.uses
  names : ∀ start ∈ events.filterMap ScopeEvent.nameStart?, start ∉ c.names

section

variable {c : Cutting} {w w' w₁ : ScopeWalk} {e e' : ScopeEvent} {es es' : List ScopeEvent}

/-- Where everything goes, everything goes in both parts. -/
theorem Takes.of_append (h : Takes c (es ++ es')) : Takes c es ∧ Takes c es' := by
  obtain ⟨huses, hnames⟩ := h
  rw [List.filterMap_append] at huses hnames
  exact ⟨⟨fun start hs => huses start (List.mem_append_left _ hs),
      fun start hs => hnames start (List.mem_append_left _ hs)⟩,
    ⟨fun start hs => huses start (List.mem_append_right _ hs),
      fun start hs => hnames start (List.mem_append_right _ hs)⟩⟩

/-- Where nothing goes, nothing goes at the first event or later. -/
theorem Spares.of_cons (h : Spares c (e :: es)) : Spares c [e] ∧ Spares c es := by
  obtain ⟨huses, hnames⟩ := h
  rw [← List.singleton_append, List.filterMap_append] at huses hnames
  exact ⟨⟨fun start hs => huses start (List.mem_append_left _ hs),
      fun start hs => hnames start (List.mem_append_left _ hs)⟩,
    ⟨fun start hs => huses start (List.mem_append_right _ hs),
      fun start hs => hnames start (List.mem_append_right _ hs)⟩⟩

theorem Spares.alike (h : Spares c [e']) (he : e.Alike e') : Spares c [e] := by
  cases he <;> exact ⟨h.uses, h.names⟩

-- ============================================================ symbols that stay

/-- The symbols that a walk can speak of stay, and so do those of all that it has recorded and that
is not cut out. -/
structure Kept (c : Cutting) (w : ScopeWalk) : Prop where
  numbers : ∀ k ∈ numbersOf w.opened, c.keeps k = true
  uses : ∀ u ∈ w.found.uses, u.start ∉ c.uses → ∀ k, u.symbol = some k → c.keeps k = true
  declared : ∀ d ∈ w.found.declared, d.1 ∉ c.names → c.keeps d.2 = true

theorem kept_start (c : Cutting) : Kept c start := ⟨nofun, nofun, nofun⟩

/-- What an event that stays adds stays. -/
theorem Kept.step (h : Kept c w) (hspares : Spares c [e]) (hf : c.Follows (step w e).found) :
    Kept c (step w e) := by
  have hgrows := grows_step w e
  have hnew : ∀ k, k ∈ numbersOf w.opened
        ∨ w.found.symbols.length ≤ k ∧ k < (ScopeWalk.step w e).found.symbols.length →
      c.keeps k = true := by
    intro k hk
    rcases hk with hk | ⟨hlo, hhi⟩
    · exact h.numbers k hk
    · obtain ⟨start, hstart, hfirst⟩ := (adds_step w e).first hf hlo hhi
      simpa [Cutting.keeps, hfirst] using hspares.names start hstart
  refine ⟨fun k hk => hnew k (hgrows.numbers k hk), fun u hu hstart k hk => ?_,
    fun d hd hstart => ?_⟩
  · rcases hgrows.uses u hu with hu | hu
    · exact h.uses u hu hstart k hk
    · exact hnew k (hu k hk)
  · rcases hgrows.declared d hd with hd | ⟨-, hd⟩
    · exact h.declared d hd hstart
    · exact hnew d.2 hd

-- ============================================================ one event that stays

/-- A walk along the rest: the scopes and names that are left of those of a walk. -/
structure Left (c : Cutting) (w w' : ScopeWalk) : Prop where
  opened : w'.opened = w.opened.map c.scope
  found : c.Remains w.found w'.found

/-- A scope closes as what is left of it does. -/
theorem settle_scope (s : OpenScope) :
    settle (c.scope s) = (((settle s).1.filter fun u => !c.uses.contains u.start).map c.use,
      (settle s).2.filter fun u => !c.uses.contains u.start) := by
  unfold settle
  simp only [Cutting.scope, Cutting.lookup_entry, Option.isNone_map, List.filter_filter]
  congr 1
  · rw [List.filterMap_filter, List.filter_filterMap, List.map_filterMap]
    congr 1
    funext u
    cases s.names.lookup u.name with
    | none => simp
    | some n => by_cases hu : u.start ∈ c.uses <;> simp [hu, Cutting.use, Option.filter]
  · refine List.filter_congr fun u _ => ?_
    exact Bool.and_comm ..

/-- A scope closes. -/
theorem Left.leave (h : Left c w w') : Left c (step w .leave) (step w' .leave) := by
  obtain ⟨hopened, hfound⟩ := h
  cases hw : w.opened with
  | nil =>
      have hw' : w'.opened = [] := by rw [hopened, hw]; rfl
      have hstep : ScopeWalk.step w .leave = w := by simp [ScopeWalk.step, hw]
      have hstep' : ScopeWalk.step w' .leave = w' := by simp [ScopeWalk.step, hw']
      rw [hstep, hstep']
      exact ⟨hopened, hfound⟩
  | cons s outer =>
      rw [hw, List.map_cons] at hopened
      cases outer with
      | nil =>
          rw [step_leave_last hw, step_leave_last hopened]
          refine ⟨rfl, hfound.length, hfound.isOwn, hfound.declared, ?_⟩
          simp only [settle_scope, hfound.uses, List.filter_append, List.map_append,
            List.filter_map, List.map_map]
          rfl
      | cons t outer =>
          rw [step_leave_cons hw, step_leave_cons hopened]
          refine ⟨?_, hfound.length, hfound.isOwn, hfound.declared, ?_⟩
          · rw [settle_scope]
            simp only [List.map_cons, Cutting.scope, List.filter_append]
          · simp only [settle_scope, hfound.uses, List.filter_append, List.map_append]

/-- A name is introduced. -/
theorem Left.introduce {name : String} {span : Span} {how how' : Introduction} (h : Left c w w')
    (hvalid : Valid w) (hkept : Kept c w) (hreach : how.reach = how'.reach)
    (hname : span.start ∉ c.names) (hf : c.Follows (step w (.introduce name span how)).found) :
    Left c (step w (.introduce name span how)) (step w' (.introduce name span how')) := by
  obtain ⟨hopened, hfound⟩ := h
  have hnumbers : ∀ k ∈ numbersOf w.opened, k < w.found.symbols.length ∧ c.keeps k = true :=
    fun k hk => ⟨hvalid.numbers k hk, hkept.numbers k hk⟩
  by_cases hwide : how.reach = .wide
  · rw [step_introduce_wide hwide] at hf ⊢
    rw [step_introduce_wide (hreach ▸ hwide), hopened]
    obtain ⟨b₁, heq, hb₁⟩ := hfound.introduceWide hnumbers hreach hname hf
    rw [heq]
    exact ⟨rfl, hb₁⟩
  · have hwide' : how'.reach ≠ .wide := hreach ▸ hwide
    cases hw : w.opened with
    | nil =>
        rw [step_introduce_nil hwide hw, step_introduce_nil hwide' (by rw [hopened, hw]; rfl)]
        exact ⟨hopened, hfound⟩
    | cons s outer =>
        rw [hw, List.map_cons] at hopened
        rw [step_introduce_cons hwide hw] at hf ⊢
        rw [step_introduce_cons hwide' hopened]
        have hs : ∀ k ∈ s.numbers, k < w.found.symbols.length ∧ c.keeps k = true :=
          fun k hk => hnumbers k (hw ▸ List.mem_append_left _ hk)
        obtain ⟨b₁, heq, hb₁⟩ := hfound.introduceIn hs hreach hname hf
        rw [heq]
        exact ⟨rfl, hb₁⟩

/-- One event that stays. -/
theorem Left.step (h : Left c w w') (hvalid : Valid w) (hkept : Kept c w) (he : e.Alike e')
    (hspares : Spares c [e]) (hf : c.Follows (step w e).found) :
    Left c (step w e) (step w' e') := by
  cases he with
  | enter isWide => exact ⟨by simp [ScopeWalk.step, h.opened, Cutting.scope], h.found⟩
  | leave => exact h.leave
  | introduce name span hreach =>
      exact h.introduce hvalid hkept hreach (hspares.names span.start List.mem_cons_self) hf
  | use name start isWrite =>
      have hstart : start ∉ c.uses := hspares.uses start List.mem_cons_self
      obtain ⟨hopened, hfound⟩ := h
      cases hw : w.opened with
      | nil =>
          rw [step_use_nil hw, step_use_nil (by rw [hopened, hw]; rfl)]
          exact ⟨hopened, hfound⟩
      | cons s outer =>
          rw [hw, List.map_cons] at hopened
          rw [step_use_cons hw, step_use_cons hopened]
          exact ⟨by simp [Cutting.scope, hstart], hfound⟩

-- ============================================================ a segment that goes

/-- A stretch of a walk of which nothing is left: the scopes around it hold what they held, and
everything that it adds goes. -/
structure Skips (c : Cutting) (w w₁ : ScopeWalk) : Prop where
  opened : w₁.opened.map c.scope = w.opened.map c.scope
  numbers : numbersOf w₁.opened = numbersOf w.opened
  uses : (w₁.found.uses.filter fun u => !c.uses.contains u.start)
    = w.found.uses.filter fun u => !c.uses.contains u.start
  declared : (w₁.found.declared.filter fun d => !c.names.contains d.1)
    = w.found.declared.filter fun d => !c.names.contains d.1
  symbols : ∃ ms, w₁.found.symbols.map mark = w.found.symbols.map mark ++ ms
  goes : ∀ k, w.found.symbols.length ≤ k → k < w₁.found.symbols.length → c.keeps k = false

/-- An enclosed segment whose names and uses all go. -/
theorem skips_segment {segment : List ScopeEvent} (hclosed : ScopeEvent.Encloses [] segment)
    (htakes : Takes c segment) (hf : c.Follows (segment.foldl step w).found) :
    Skips c w (segment.foldl step w) := by
  -- a closed segment opens and leaves its own scopes, and so ends in the scopes it began in
  have hinside : Inside w.opened w.found.symbols.length (segment.filterMap ScopeEvent.useStart?) []
      w := ⟨⟨[], w.opened, rfl, rfl, nofun, nofun, rfl⟩, Nat.le_refl _⟩
  obtain ⟨⟨⟨inner, outer, hopened, hflags, -, -, houter⟩, -⟩, hrecords⟩ :=
    hinside.walk hclosed fun _ h => h
  have hadds := adds_walk segment w
  generalize segment.foldl step w = w₁ at *
  obtain rfl : inner = [] := List.map_eq_nil_iff.mp hflags
  rw [List.nil_append] at hopened
  -- every use of the segment is cut, so filtering by the cut sees through the segment's own uses
  have hgoes := Cutting.goes_of_subset htakes.uses
  constructor
  case opened =>
    have hmap : ∀ scopes : List OpenScope, scopes.map c.scope
        = (scopes.map (without (segment.filterMap ScopeEvent.useStart?))).map c.scope := by
      intro scopes
      rw [List.map_map]
      refine List.map_congr_left fun s _ => ?_
      simp only [Function.comp_apply, Cutting.scope, without, List.filter_filter, hgoes]
    rw [hopened, hmap outer, houter, ← hmap]
  case numbers => rw [hopened, numbersOf_without houter]
  case uses =>
    have hfilter : ∀ us : List Use, us.filter (fun u => !c.uses.contains u.start)
        = (us.filter fun u => !(segment.filterMap ScopeEvent.useStart?).contains u.start).filter
            fun u => !c.uses.contains u.start := by
      intro us
      simp only [List.filter_filter, hgoes]
    rw [hfilter, hrecords.uses, ← hfilter]
  case declared =>
    obtain ⟨ds, hds, hdstarts⟩ := hadds.declared
    have hnone : ds.filter (fun d => !c.names.contains d.1) = [] :=
      List.filter_eq_nil_iff.mpr fun d hd => by simp [htakes.names _ (hdstarts d hd)]
    rw [hds, List.filter_append, hnone, List.nil_append]
  case symbols =>
    obtain ⟨ms, hms, -⟩ := hadds.symbols
    exact ⟨ms, hms⟩
  -- a symbol the segment added is first declared at a name that is cut
  case goes =>
    intro k hlo hhi
    obtain ⟨start, hstart, hfirst⟩ := hadds.first hf hlo hhi
    simp [Cutting.keeps, hfirst, htakes.names start hstart]

/-- The rest does not take part in what is skipped. -/
theorem Left.skip (h : Left c w w') (hskips : Skips c w w₁) : Left c w₁ w' := by
  obtain ⟨ms, hms⟩ := hskips.symbols
  have hlength : w.found.symbols.length ≤ w₁.found.symbols.length := by
    have := congrArg List.length hms
    simp only [List.length_map, List.length_append] at this
    omega
  refine ⟨h.opened.trans hskips.opened.symm, ?_, fun k hk hkeeps => ?_, ?_, ?_⟩
  · rw [h.found.length, Cutting.number_eq hlength hskips.goes]
  · have hlt : k < w.found.symbols.length := by
      by_cases hlt : k < w.found.symbols.length
      · exact hlt
      · rw [hskips.goes k (by omega) hk] at hkeeps
        cases hkeeps
    have hmark : (w₁.found.symbols[k]?).map mark = (w.found.symbols[k]?).map mark := by
      rw [← List.getElem?_map, hms, List.getElem?_append_left (by simpa using hlt),
        List.getElem?_map]
    have hown : ∀ o : Option Symbol, o.any (·.isOwn) = (o.map mark).any Prod.snd := by
      intro o
      cases o <;> rfl
    rw [h.found.isOwn k hlt hkeeps, hown, hown, hmark]
  · rw [h.found.declared, hskips.declared]
  · rw [h.found.uses, hskips.uses]

/-- What is skipped adds nothing that stays. -/
theorem Kept.skip (h : Kept c w) (hskips : Skips c w w₁) : Kept c w₁ where
  numbers k hk := h.numbers k (hskips.numbers ▸ hk)
  uses u hu hstart := by
    have hmem : u ∈ w₁.found.uses.filter fun u => !c.uses.contains u.start :=
      List.mem_filter.mpr ⟨hu, by simpa using hstart⟩
    rw [hskips.uses] at hmem
    exact h.uses u (List.mem_filter.mp hmem).1 hstart
  declared d hd hstart := by
    have hmem : d ∈ w₁.found.declared.filter fun d => !c.names.contains d.1 :=
      List.mem_filter.mpr ⟨hd, by simpa using hstart⟩
    rw [hskips.declared] at hmem
    exact h.declared d (List.mem_filter.mp hmem).1 hstart

-- ============================================================ all events

/-- All events, and those that are left of them. -/
theorem Left.walk {events gone rest : List ScopeEvent} (hcut : ScopeEvent.Cut events gone rest)
    (h : Left c w w') (hvalid : Valid w) (hkept : Kept c w) (htakes : Takes c gone)
    (hspares : Spares c rest) (hf : c.Follows (events.foldl ScopeWalk.step w).found) :
    Left c (events.foldl ScopeWalk.step w) (rest.foldl ScopeWalk.step w')
      ∧ Kept c (events.foldl ScopeWalk.step w) := by
  induction hcut generalizing w w' with
  | nil => exact ⟨h, hkept⟩
  | @keep e e' events gone rest he more ih =>
      obtain ⟨hone, hmore⟩ := hspares.of_cons
      have hone := hone.alike he
      have hf₁ : c.Follows (ScopeWalk.step w e).found := (adds_walk events _).follows hf
      exact ih (h.step hvalid hkept he hone hf₁) (hvalid.walk (grows_step w e))
        (hkept.step hone hf₁) htakes hmore hf
  | @drop segment events gone rest hsegment more ih =>
      obtain ⟨hone, hmore⟩ := htakes.of_append
      rw [List.foldl_append] at hf ⊢
      have hskips := skips_segment hsegment hone ((adds_walk events _).follows hf)
      exact ih (h.skip hskips) (hvalid.walk (grows_walk segment w)) (hkept.skip hskips) hmore
        hspares hf

end

end ScopeWalk

namespace Bindings

-- ============================================================ programs

/-- What is cut out of a program when some of its events are gone. -/
def cutting (b : Bindings) (gone : List ScopeEvent) : Cutting where
  uses := gone.filterMap ScopeEvent.useStart?
  names := gone.filterMap ScopeEvent.nameStart?
  first := b.symbols.map (·.span.start)

section

variable {tree tree' : Node} {gone : List ScopeEvent}

/-- The names of the rest of a program are what remains of the names of the program. -/
theorem left_of_cut (ht : tree.WellPlaced)
    (hcut : ScopeEvent.Cut (ScopeEvent.ofProgram tree) gone (ScopeEvent.ofProgram tree')) :
    ((ofProgram tree).cutting gone).Remains (ofProgram tree) (ofProgram tree')
      ∧ ScopeWalk.Kept ((ofProgram tree).cutting gone)
          ((ScopeEvent.ofProgram tree).foldl ScopeWalk.step .start) := by
  -- no offset is both gone and left
  have huses : ∀ start ∈ (ScopeEvent.ofProgram tree').filterMap ScopeEvent.useStart?,
      start ∉ gone.filterMap ScopeEvent.useStart? := by
    have hnodup := ht.nodup_useStarts
    rw [← ScopeEvent.useStarts_fold ht (ScopeEvent.plain .near), ← ScopeEvent.ofProgram,
      hcut.useStarts.nodup_iff] at hnodup
    exact fun start hrest hgone => (List.nodup_append.mp hnodup).2.2 start hgone start hrest rfl
  have hnames : ∀ start ∈ (ScopeEvent.ofProgram tree').filterMap ScopeEvent.nameStart?,
      start ∉ gone.filterMap ScopeEvent.nameStart? := by
    have hnodup := ht.nodup_nameStarts
    rw [← ScopeEvent.nameStarts_fold ht (ScopeEvent.plain .near), ← ScopeEvent.ofProgram,
      hcut.nameStarts.nodup_iff] at hnodup
    exact fun start hrest hgone => (List.nodup_append.mp hnodup).2.2 start hgone start hrest rfl
  have hstart : ScopeWalk.Left ((ofProgram tree).cutting gone) ScopeWalk.start ScopeWalk.start :=
    ⟨rfl, rfl, fun k hk => absurd hk (Nat.not_lt_zero k), rfl, rfl⟩
  obtain ⟨hleft, hkept⟩ := hstart.walk hcut ScopeWalk.valid_start (ScopeWalk.kept_start _)
    ⟨fun _ h => h, fun _ h => h⟩ ⟨huses, hnames⟩ (List.prefix_refl _)
  exact ⟨hleft.found, hkept⟩

/-- A name that is left declares the symbol that it declared, by its new number. -/
theorem symbolOfName?_of_cut (ht : tree.WellPlaced)
    (hcut : ScopeEvent.Cut (ScopeEvent.ofProgram tree) gone (ScopeEvent.ofProgram tree'))
    {start n : Nat} (hstart : start ∉ gone.filterMap ScopeEvent.nameStart?)
    (hn : (ofProgram tree).symbolOfName? start = some n) :
    (ofProgram tree').symbolOfName? start = some (((ofProgram tree).cutting gone).number n)
      ∧ ((ofProgram tree).cutting gone).keeps n = true := by
  obtain ⟨hleft, hkept⟩ := left_of_cut ht hcut
  have hd := (symbolOfName?_eq_some ht).mp hn
  refine ⟨?_, hkept.declared _ hd hstart⟩
  have hsublist : ((ofProgram tree').declared.map Prod.fst).Sublist
      ((ofProgram tree).declared.map Prod.fst) := by
    rw [hleft.declared, List.map_map]
    exact List.filter_sublist.map _
  rw [symbolOfName?, lookup_eq_some_iff_mem (hsublist.nodup (nodup_declared ht)), hleft.declared]
  exact List.mem_map.mpr ⟨_, List.mem_filter.mpr ⟨hd, by simpa [cutting] using hstart⟩, rfl⟩

/-- A symbol that stays is used in the rest where it was used before, but for the uses that are
gone. -/
theorem useCount_of_cut (ht : tree.WellPlaced)
    (hcut : ScopeEvent.Cut (ScopeEvent.ofProgram tree) gone (ScopeEvent.ofProgram tree'))
    {n : Nat} (hkeeps : ((ofProgram tree).cutting gone).keeps n = true) :
    (ofProgram tree').useCount (((ofProgram tree).cutting gone).number n)
      = (ofProgram tree).uses.countP fun u =>
          u.symbol == some n && !(gone.filterMap ScopeEvent.useStart?).contains u.start := by
  obtain ⟨hleft, hkept⟩ := left_of_cut ht hcut
  rw [useCount, hleft.uses, List.countP_map, List.countP_filter]
  refine List.countP_congr fun u hu => ?_
  simp only [Bool.and_eq_true, Function.comp_apply, Cutting.use, beq_iff_eq, cutting,
    Bool.not_eq_true', List.contains_eq_mem, decide_eq_false_iff_not]
  refine and_congr_left fun hstart => ?_
  cases hsymbol : u.symbol with
  | none => simp
  | some m =>
      have hm := hkept.uses u hu hstart m hsymbol
      rw [Option.map_some, Option.some_inj, Option.some_inj]
      exact ⟨fun h => Cutting.number_inj hm hkeeps h, fun h => by rw [h]⟩

end

end Bindings
end Graft
