import Graft.Proofs.Plan.Grounds
import Graft.Proofs.Scope.Symbols
import Graft.Proofs.Transform.Stages
/-!
The origin gate.

Every edit that takes something away asks whether a value comes from the host.

- The way back leads over accesses, over the bundler's helper and over names with a lasting value,
  all of them parts of the program, and it can only end well at a global use of the host's reserved
  name (`Origin.reserved_of_traces`).
- A program without such a use, and without a call that loads a known module, gives the planner no
  ground for anything: every entry of a plan has its ground in the program, and each ground but the
  call of the loader holds a value from the host. So the plan is empty (`planEdits_eq_empty`).
- Then the run has one round, nothing is changed, and a transform does nothing but finish the module
  (`transformNamed_of_no_host`).
-/
namespace Graft

-- ========================================================== the way back

namespace Origin

/-- The initial values of the symbols are parts of the tree. -/
def StaysIn (o : Origin) (tree : Node) : Prop :=
  ∀ s ∈ o.bindings.symbols, ∀ value, s.value = some value → value ∈ tree.parts

/-- The bindings of a program hold parts of that program and nothing else. -/
theorem staysIn_ofProgram (host : HostNamespace) (tree : Node) :
    StaysIn ⟨host, Bindings.ofProgram tree⟩ tree :=
  fun _ hs _ hv => Bindings.value_mem_parts hs hv

/-- What the tracer can go on to is a part of the program. -/
theorem lastingValue_mem_parts {o : Origin} {tree value : Node} {n : Nat} (ho : o.StaysIn tree)
    (h : o.lastingValue? n = some value) : value ∈ tree.parts := by
  unfold lastingValue? at h
  split at h
  case h_1 s hs =>
    split at h
    · cases h
    · exact ho s (List.mem_of_getElem? hs) value h
  case h_2 => cases h

/-- A value that comes from the host comes from a global use of the reserved name. -/
theorem reserved_of_tracesFrom {o : Origin} {tree : Node} (ho : o.StaysIn tree) {fuel : Nat}
    {visited : List Nat} {e : Node} (he : e ∈ tree.parts)
    (h : o.tracesFrom fuel visited e = true) :
    ∃ n ∈ tree.parts, n.form = .identifier o.host.reservedName
      ∧ o.bindings.isGlobalUse n.span.start = true := by
  induction fuel generalizing visited e with
  | zero => cases h
  | succ fuel ih =>
      have hsource : e.source o.host.interopHelper ∈ tree.parts :=
        Node.mem_parts_trans (Node.source_mem_parts _ e) he
      rw [tracesFrom] at h
      split at h
      case h_1 name span ks heq =>
        rw [heq] at hsource
        split at h
        case isTrue hroot =>
          simp only [Bool.and_eq_true, beq_iff_eq] at hroot
          exact ⟨_, hsource, by rw [← hroot.1]; rfl, hroot.2⟩
        case isFalse =>
          -- the name is a symbol, and the way leads on to its value
          cases hsym : o.bindings.symbolOfUse? span.start with
          | none => simp [hsym] at h
          | some n =>
              simp only [hsym] at h
              split at h
              · cases h
              · cases hvalue : o.lastingValue? n with
                | none => simp [hvalue] at h
                | some value =>
                    simp only [hvalue] at h
                    exact ih (lastingValue_mem_parts ho hvalue) h
      case h_2 => cases h

/-- Where anything at all traces to the host, the program uses the reserved name as a global one. -/
theorem reserved_of_traces {o : Origin} {tree e : Node} (ho : o.StaysIn tree)
    (he : e ∈ tree.parts) (h : o.traces e = true) :
    ∃ n ∈ tree.parts, n.form = .identifier o.host.reservedName
      ∧ o.bindings.isGlobalUse n.span.start = true :=
  reserved_of_tracesFrom ho he h

end Origin

-- ============================================== programs without the host

/-- No reference named like the host is global: each one resolves to a local binding. -/
def HostIsShadowed (config : TransformConfig) (tree : Node) : Prop :=
  ∀ n ∈ tree.parts, n.form = .identifier config.host.reservedName →
    (Bindings.ofProgram tree).isGlobalUse n.span.start = false

instance (config : TransformConfig) (tree : Node) : Decidable (HostIsShadowed config tree) :=
  inferInstanceAs (Decidable (∀ n ∈ tree.parts, _))

/-- No call of the global loader has one argument, a string that the replacements know. -/
def LoadsNoKnownModule (config : TransformConfig) (tree : Node) : Prop :=
  ∀ isOptional isPure span callee argument text,
    .node (.call isOptional isPure) span [callee, argument] ∈ tree.parts →
    callee.form = .identifier config.host.loader →
    (Bindings.ofProgram tree).isGlobalUse callee.span.start = true →
    argument.stringText? = some text →
    config.replacementFor? text = none

section

variable {config : TransformConfig} {plugin : String} {tree : Node}

/-- Nothing in a program that shadows the host comes from it. -/
theorem traces_eq_false (hhost : HostIsShadowed config tree) {e : Node} (he : e ∈ tree.parts) :
    (Survey.onProgram config plugin tree).origin.traces e = false := by
  refine eq_false_of_ne_true fun htrace => ?_
  obtain ⟨n, hn, hform, hglobal⟩ := Origin.reserved_of_traces
    (Origin.staysIn_ofProgram config.host tree) he htrace
  have hlocal := hhost n hn hform
  rw [show (Bindings.ofProgram tree).isGlobalUse n.span.start = true from hglobal] at hlocal
  cases hlocal

/-- A statement that only calls a pure method has a callee in it that comes from the host. -/
theorem Survey.callee_of_isPureCall {v : Survey} {value : Node} (h : v.isPureCall value = true) :
    ∃ callee ∈ value.parts, v.origin.traces callee = true := by
  unfold isPureCall at h
  split at h
  case h_1 isOptional isPure span callee arguments heq =>
    simp only [Bool.and_eq_true] at h
    have hcallee : callee ∈ value.root.parts := by
      rw [heq]
      exact Node.mem_parts_node.mpr (.inr ⟨callee, List.mem_cons_self, Node.self_mem_parts _⟩)
    exact ⟨callee, Node.mem_parts_trans hcallee (Node.root_mem_parts value), h.2⟩
  case h_2 => cases h

/-- Without the host and without a known module there is no ground for an edit. -/
theorem planEdits_eq_empty (hhost : HostIsShadowed config tree)
    (hload : LoadsNoKnownModule config tree) : (planEdits config plugin tree).1 = {} := by
  have hground := planEdits_grounded config plugin tree
  -- no node of the tree has its origin at the host, as the host's name is shadowed everywhere
  have hno : ∀ {e : Node}, e ∈ tree.parts →
      (Survey.onProgram config plugin tree).origin.traces e = true → False := by
    intro e he htrace
    rw [traces_eq_false hhost he] at htrace
    cases htrace
  have hchild : ∀ {form span children} {k : Node}, .node form span children ∈ tree.parts →
      k ∈ children → k ∈ tree.parts := by
    intro form span children k hmem hk
    exact Node.mem_parts_trans (Node.mem_parts_node.mpr (.inr ⟨k, hk, Node.self_mem_parts k⟩)) hmem
  generalize (planEdits config plugin tree).1 = p at hground
  -- each list of the plan is grounded in such a node, but for the substitutions
  have hstatements : p.removedStatements = [] := by
    refine List.eq_nil_iff_forall_not_mem.mpr fun s hs => ?_
    obtain ⟨value, hmem, hpure⟩ := hground.statements s hs
    obtain ⟨callee, hcallee, htrace⟩ := Survey.callee_of_isPureCall hpure
    exact hno (Node.mem_parts_trans hcallee (hchild hmem List.mem_cons_self)) htrace
  have hpatterns : p.removedPatterns = [] := by
    refine List.eq_nil_iff_forall_not_mem.mpr fun s hs => ?_
    obtain ⟨span, pattern, value, hmem, htrace, -⟩ := hground.patterns s hs
    exact hno (hchild hmem (by simp)) htrace
  -- a substitution asks only that its module be known, which none of the loaded ones is
  have hsubstitutions : p.substitutions = [] := by
    refine List.eq_nil_iff_forall_not_mem.mpr fun e he => ?_
    obtain ⟨o, isPure, callee, arguments, hmem, hsub⟩ := hground.substitutions e he
    obtain ⟨argument, text, rfl, hform, hglobal, htext, hchain⟩ :=
      Survey.loads_of_substitutionFor? hsub
    have hnone := hload o isPure e.1 callee argument text hmem hform hglobal htext
    rw [show config.replacementFor? text = some e.2 from hchain] at hnone
    cases hnone
  have hmembers : p.boundMembers = [] := by
    refine List.eq_nil_iff_forall_not_mem.mpr fun s hs => ?_
    obtain ⟨o, name, object, hmem, -, htrace⟩ := hground.members s hs
    exact hno (hchild hmem List.mem_cons_self) htrace
  have hsplits : p.splits = [] := by
    refine List.eq_nil_iff_forall_not_mem.mpr fun e he => ?_
    obtain ⟨pattern, value, hmem, htrace, -⟩ := hground.splits e he
    exact hno (hchild hmem (by simp)) htrace
  have hdroppable : p.droppable = [] := by
    refine List.eq_nil_iff_forall_not_mem.mpr fun s hs => ?_
    obtain ⟨pattern, value, hmem, htrace, -⟩ := hground.droppable s hs
    exact hno (hchild hmem (by simp)) htrace
  cases p
  simp_all

end

-- ========================================================= whole transforms

/-- A transform of a program that shadows the host, and loads no known module, plans nothing and
only finishes the module. -/
theorem transformNamed_of_no_host {source : String} {params : BuildParams}
    {config : TransformConfig} {p : Program}
    (hp : Program.parse? (params.metadata.strip source) = some p)
    (hhost : HostIsShadowed config p.tree) (hload : LoadsNoKnownModule config p.tree) :
    (planEdits config params.pluginName p.tree).1 = {}
      ∧ ∀ moduleId out, transformNamed moduleId source params config = .ok out →
          out.passes = 1 ∧ out.converged = true ∧ out.stats = .zero
            ∧ ∃ tree', config.exports.Ensured p.tree tree'
                ∧ params.metadata.Headed (tree'.render p.comments) out.code := by
  have hplan : (planEdits config params.pluginName p.tree).1 = {} :=
    planEdits_eq_empty hhost hload
  refine ⟨hplan, fun moduleId out hout => ?_⟩
  obtain ⟨⟨u, hcheck⟩, hfinish, hpasses, hconverged, hstats⟩ := transformNamed_ok hout
  obtain ⟨budget, hbudget⟩ := Nat.exists_eq_succ_of_ne_zero
    (Nat.ne_of_gt (TransformConfig.maxPasses_pos hcheck))
  have hrun : editModule source params config
      = ⟨params.metadata.strip source,
          [⟨{}, (planEdits config params.pluginName p.tree).2, none⟩], .settled⟩ := by
    rw [editModule, hbudget, Run.of_idle hp (by rw [hplan]; rfl), hplan]
  rw [hrun] at hfinish hpasses hconverged hstats
  exact ⟨hpasses, hconverged, hstats, finishModule_ok hp hfinish⟩

/-- A parameter with the name of the host, and a call of a pure method on it. -/
theorem transformNamed_of_shadowing_parameter :
    ∃ p out, Program.parse? "(BdApi) => BdApi.get(\"a\");" = some p
      ∧ transformNamed "m" "(BdApi) => BdApi.get(\"a\");" ⟨"p", []⟩ .standard = .ok out
      ∧ (planEdits .standard "p" p.tree).1 = {} ∧ out.passes = 1 ∧ out.converged = true
      ∧ out.stats = .zero := by
  have hchecks : (Program.parse? "(BdApi) => BdApi.get(\"a\");").any (fun p =>
      decide (HostIsShadowed .standard p.tree) && p.tree.parts.all fun n =>
        (n.children.headD .absent).form != .identifier "require") = true := by
    decide +kernel
  obtain ⟨p, hp, hchecks⟩ := (Option.any_eq_true ..).mp hchecks
  simp only [Bool.and_eq_true, decide_eq_true_eq, List.all_eq_true, bne_iff_ne] at hchecks
  have hload : LoadsNoKnownModule .standard p.tree :=
    fun _ _ _ _ _ _ hmem hform => absurd hform (hchecks.2 _ hmem)
  have hstrip : Metadata.strip [] "(BdApi) => BdApi.get(\"a\");"
      = "(BdApi) => BdApi.get(\"a\");" := by
    decide +kernel
  have hruns : (transformNamed "m" "(BdApi) => BdApi.get(\"a\");" ⟨"p", []⟩
      .standard).toOption.isSome = true := by
    decide +kernel
  cases hout : transformNamed "m" "(BdApi) => BdApi.get(\"a\");" ⟨"p", []⟩ .standard with
  | error e =>
      rw [hout] at hruns
      cases hruns
  | ok out =>
      have hsource : Program.parse? ((⟨"p", []⟩ : BuildParams).metadata.strip
          "(BdApi) => BdApi.get(\"a\");") = some p := by
        rw [hstrip, hp]
      obtain ⟨hplan, hall⟩ := transformNamed_of_no_host hsource hchecks.1 hload
      obtain ⟨hpasses, hconverged, hstats, -⟩ := hall "m" out hout
      exact ⟨p, out, hp, rfl, hplan, hpasses, hconverged, hstats⟩

end Graft
