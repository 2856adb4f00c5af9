import SumLang.Proofs.LineText

/-! The code of every program is legible: each of its lines has a text that a line may have, and
only the first and last lines of a block look like such lines. -/
namespace SumLang

open Token (IsIdentifier)

/-- Code whose texts tell its lines and blocks apart. -/
inductive CodeTree.Legible : CodeTree → Prop where
  | blank : Legible (.line .blank)
  | line {code : Code} : StartsLine code.text → code.text.toList.getLast? ≠ some '\x7b' →
    Legible (.line code)
  | block {head : Code.Head} {body : List CodeTree} {defines : Option String} :
    StartsLine head.text → (∀ t ∈ body, Legible t) → (∀ name ∈ defines, OneLine name) →
    Legible (.block head body defines)

section Pieces

variable {s : Settings}

theorem legible_statement {st : Code.Statement} (h : StartsLine st.text) :
    (CodeTree.statement st).Legible := by
  refine .line h ?_
  rw [Code.text, st.getLast?_text]
  decide

theorem legible_declare {b : Code.Binder} (h : b.Spelled) :
    (CodeTree.statement (.declare b)).Legible :=
  legible_statement ((Code.Binder.startsLine_text h).append (by decide))

theorem spelled_binder {v : Variable} (h : WellFormed.Typed v) : (s.binder v).Spelled :=
  ⟨startsLine_spellType _ h.type, (startsLine_of_isIdentifier h.name).oneLine⟩

theorem startsLine_signature {p : Prototype} (h : WellFormed.Prototype p) :
    StartsLine (s.signature p).text := by
  refine Code.Signature.startsLine_text ?_ fun b hb => ?_
  · exact ⟨startsLine_spellType _ h.result, (startsLine_of_isIdentifier h.name).oneLine⟩
  · obtain ⟨v, hv, rfl⟩ := List.mem_map.1 hb
    exact spelled_binder (h.formals v hv).toTyped

end Pieces

namespace CodeTree

variable {s : Settings} {l : EnumLayout} {c : CaseLayout}

theorem legible_structType {name : String} {members : List Code.Binder} (hname : OneLine name)
    (h : ∀ b ∈ members, b.Spelled) : (structType name members).Legible := by
  have hhead : StartsLine "typedef struct " := (by decide)
  refine .block (hhead.append hname) (fun t ht => ?_) (by simpa using hname)
  obtain ⟨b, hb, rfl⟩ := List.mem_map.1 ht
  refine legible_declare ?_
  split at hb
  · obtain rfl := List.mem_singleton.1 hb
    exact ⟨by decide, by decide⟩
  · exact h b hb

theorem legible_tagList {cs : List CaseLayout} (h : ∀ c ∈ cs, c.Worded) :
    ∀ t ∈ tagList cs, t.Legible := by
  have hlast (c : CaseLayout) : c.tag.toList.getLast? = some 'g' :=
    getLast?_append_of_eq_some _ (by decide)
  fun_induction tagList cs with
  | case1 => simp
  | case2 c =>
    refine List.forall_mem_cons.2 ⟨.line ?_ ?_, by simp⟩
    · exact CaseLayout.startsLine_tag (h c (by simp))
    · rw [Code.text, if_pos rfl, hlast]
      decide
  | case3 c cs _ ih =>
    obtain ⟨hc, hcs⟩ := List.forall_mem_cons.1 h
    refine List.forall_mem_cons.2 ⟨.line ?_ ?_, ih hcs⟩
    · exact (CaseLayout.startsLine_tag hc).append (by decide)
    · rw [Code.text, if_neg (by simp), getLast?_append_of_eq_some _ (c := ',') (by decide)]
      decide

theorem spelled_field (hc : c.Worded) {v : Variable} (hv : v ∈ c.fields) : (s.binder v).Spelled :=
  spelled_binder (hc.fields v hv).toTyped

theorem legible_resultStatements {enum : String} (h : IsIdentifier enum) :
    ∀ st ∈ CaseLayout.resultStatements s enum, (CodeTree.statement st).Legible := by
  have hlocal : Code.Binder.Spelled ⟨enum, resultLocal⟩ :=
    ⟨startsLine_of_isIdentifier h, (by decide : OneLine resultLocal)⟩
  unfold CaseLayout.resultStatements
  split
  · refine List.forall_mem_cons.2 ⟨legible_statement ?_, by simp⟩
    exact (((Code.Binder.startsLine_text hlocal).append (by decide)).append
      hlocal.type.oneLine).append (by decide)
  · refine List.forall_mem_cons.2 ⟨legible_declare hlocal, List.forall_mem_cons.2 ⟨?_, by simp⟩⟩
    exact legible_statement (by decide)

theorem legible_constructor {enum : String} (henum : IsIdentifier enum) (hc : c.Worded) :
    (constructor s enum c).Legible := by
  have hlocal : StartsLine resultLocal := (by decide)
  have hname : Code.Binder.Spelled ⟨enum, c.constructor⟩ :=
    ⟨startsLine_of_isIdentifier henum, (CaseLayout.startsLine_constructor hc).oneLine⟩
  have hassign {a : Code.Access} {value : String} (ha : StartsLine a.text) (hv : OneLine value) :
      (CodeTree.statement (.assign a value)).Legible :=
    legible_statement (((ha.append (by decide)).append hv).append (by decide))
  refine .block ?_ (fun t ht => ?_) (by simp)
  · refine Code.Signature.startsLine_text hname fun b hb => ?_
    obtain ⟨v, hv, rfl⟩ := List.mem_map.1 hb
    exact spelled_field hc hv
  · obtain ⟨st, hst, rfl⟩ := List.mem_map.1 ht
    simp only [CaseLayout.constructorBody, List.mem_append, List.mem_map, List.mem_singleton] at hst
    rcases hst with ((hst | hst) | ⟨v, hv, rfl⟩) | rfl
    · exact legible_resultStatements henum st hst
    · split at hst
      · obtain rfl := List.mem_singleton.1 hst
        have htag := (CaseLayout.startsLine_tag hc).oneLine
        refine hassign (Code.Access.startsLine_text hlocal ?_) htag
        simp [EnumLayout.tagMember, OneLine]
      · simp at hst
    · have hfield := (startsLine_of_isIdentifier (hc.fields v hv).name).oneLine
      refine hassign (Code.Access.startsLine_text hlocal ?_) hfield
      simp [CaseLayout.path, CaseLayout.member, oneLine_lowerFirst hc.name, hfield]
    · exact legible_statement (by decide)

theorem legible_enumeration (h : l.Worded) : ∀ t ∈ enumeration s l, t.Legible := by
  have hname := startsLine_of_isIdentifier h.name
  have htag : StartsLine l.tagType := by
    have hstart : StartsLine "_" := (by decide)
    exact (hstart.append hname.oneLine).append (by decide)
  intro t ht
  simp only [enumeration, List.mem_append, List.mem_map, List.mem_singleton] at ht
  rcases ht with ((⟨c, hc, rfl⟩ | ht) | rfl) | ⟨c, hc, rfl⟩
  · refine legible_structType (CaseLayout.startsLine_structName (h.cases c hc)).oneLine ?_
    intro b hb
    obtain ⟨v, hv, rfl⟩ := List.mem_map.1 hb
    exact spelled_field (h.cases c hc) hv
  · split at ht
    · obtain rfl := List.mem_singleton.1 ht
      refine .block (by decide) (legible_tagList h.cases) ?_
      simpa using htag.oneLine
    · simp at ht
  · refine legible_structType hname.oneLine fun b hb => ?_
    rcases List.mem_append.1 hb with hb | hb
    · split at hb
      · obtain rfl := List.mem_singleton.1 hb
        exact ⟨htag, (by decide : OneLine EnumLayout.tagMember)⟩
      · simp at hb
    · obtain ⟨c, hc, rfl⟩ := List.mem_map.1 hb
      exact ⟨CaseLayout.startsLine_structName (h.cases c hc),
        oneLine_lowerFirst (h.cases c hc).name⟩
  · exact legible_constructor h.name (h.cases c hc)

theorem wellFormed_prototypes {nodes : List Node} (h : ∀ n ∈ nodes, WellFormed.Statement n) :
    ∀ p ∈ Lowering.prototypes nodes, WellFormed.Prototype p := by
  intro p hp
  obtain ⟨n, hn, hnp⟩ := List.mem_filterMap.1 hp
  cases h n hn with
  | function hwell =>
    obtain rfl := Option.some.inj hnp
    exact hwell
  | expression he => cases he <;> exact nomatch hnp
  | _ => exact nomatch hnp

theorem legible_preamble {r : Registry} {nodes : List Node} (hr : ∀ l ∈ r.enums, l.Worded)
    (h : ∀ n ∈ nodes, WellFormed.Statement n) : ∀ t ∈ preamble s r nodes, t.Legible := by
  have hheader (d : Dialect) : ∀ l ∈ d.includeLines ++ d.namespaceLine.toList,
      StartsLine l ∧ l.toList.getLast? ≠ some '\x7b' := by
    cases d <;> decide
  intro t ht
  simp only [preamble, List.mem_append (s := _ ++ _), List.mem_append (s := List.map _ _),
    List.mem_map, List.mem_flatMap] at ht
  rcases ht with (⟨line, hline, rfl⟩ | ⟨l, hl, ht⟩) | ht
  · obtain ⟨hstarts, hlast⟩ := hheader s.dialect line hline
    exact .line hstarts hlast
  · exact legible_enumeration (hr l hl) t ht
  · split at ht
    · obtain ⟨p, hp, rfl⟩ := List.mem_map.1 ht
      have hsignature := startsLine_signature (s := s) (wellFormed_prototypes h p hp)
      exact legible_statement (hsignature.append (by decide))
    · simp at ht

end CodeTree

section Statements

variable {s : Settings} {r : Registry} {fs : List Prototype}

theorem legible_prints {Γ : List Enclosing} {es : List Node} {sts : List Code.Statement}
    (hes : ∀ e ∈ es, WellFormed.Expression e) (h : List.Forall₂ (Prints s r fs Γ) es sts) :
    ∀ st ∈ sts, (CodeTree.statement st).Legible := by
  induction h with
  | nil => simp
  | @cons e st _ _ hst _ ih =>
    obtain ⟨he, hes⟩ := List.forall_mem_cons.1 hes
    refine List.forall_mem_cons.2 ⟨legible_statement ?_, ih hes⟩
    cases hst with
    | @printf text type? conversion _ hvalued _ hconversion =>
      have hstart : StartsLine "printf(\"" := by decide
      have hconversion : OneLine conversion := by
        cases hconversion <;> decide
      exact (((hstart.append hconversion).append (by decide)).append
        (startsLine_of_valued he hvalued).oneLine).append (by decide)
    | @stream text _ hvalued =>
      have hstart : StartsLine "cout << " := by decide
      exact (hstart.append (startsLine_of_valued he hvalued).oneLine).append (by decide)

theorem legible_bindings {c : CaseLayout} (hc : c.Worded) {v : Variable}
    (hv : WellFormed.Formal v) {bindings : List Variable}
    (h : ∀ b ∈ bindings, WellFormed.Formal b) :
    ∀ t ∈ c.bindingTrees s v.name bindings, t.Legible := by
  intro t ht
  obtain ⟨⟨b, field⟩, hmem, rfl⟩ := List.mem_map.1 ht
  obtain ⟨hb, hfield⟩ := List.of_mem_zip hmem
  have hname := (startsLine_of_isIdentifier (hc.fields field hfield).name).oneLine
  have hsource : StartsLine (c.path v.name field.name).text := by
    refine Code.Access.startsLine_text (startsLine_of_isIdentifier hv.name) ?_
    simp [CaseLayout.path, CaseLayout.member, oneLine_lowerFirst hc.name, hname]
  have hbinder := Code.Binder.startsLine_constText (spelled_binder (s := s) (h b hb).toTyped)
  exact legible_statement (((hbinder.append (by decide)).append hsource.oneLine).append (by decide))

theorem startsLine_test {c : CaseLayout} (hc : c.Worded) {v : Variable}
    (hv : WellFormed.Formal v) : StartsLine (Code.Head.test (c.test v.name)).text := by
  have hstart : StartsLine "if (" := by decide
  have hsubject : StartsLine (c.test v.name).subject.text := by
    refine Code.Access.startsLine_text (startsLine_of_isIdentifier hv.name) ?_
    simp [CaseLayout.test, EnumLayout.tagMember, OneLine]
  have htest : StartsLine (c.test v.name).text :=
    (hsubject.append (by decide)).append (CaseLayout.startsLine_tag hc).oneLine
  exact (hstart.append htest.oneLine).append (by decide)

mutual

/-- The code of a statement is legible. -/
theorem Lays.legible {Γ : List Enclosing} {n : Node} {ts : List CodeTree}
    (hr : ∀ l ∈ r.enums, l.Worded) (hn : WellFormed.Statement n) (h : Lays s r fs Γ n ts) :
    ∀ t ∈ ts, t.Legible := by
  cases h with
  | function hlays =>
    cases hn with
    | function hp hbody =>
      exact List.forall_mem_singleton.2
        (.block (startsLine_signature hp) (hlays.legible hr hbody) (by simp))
    | expression he => exact nomatch he
  | branch hvalued hlays =>
    cases hn with
    | branch hcondition hbody =>
      have hstart : StartsLine "if (" := by decide
      have hhead := (hstart.append (startsLine_of_valued hcondition hvalued).oneLine).append
        (u := ")") (by decide)
      exact List.forall_mem_singleton.2 (.block hhead (hlays.legible hr hbody) (by simp))
    | expression he => exact nomatch he
  | caseTest hlookup _ hlays =>
    have hc := worded_of_lookup hr hlookup
    cases hn with
    | caseTest hv _ _ hbindings hbody =>
      refine List.forall_mem_singleton.2 (.block (startsLine_test hc hv) ?_ (by simp))
      exact List.forall_mem_append.2 ⟨legible_bindings hc hv hbindings, hlays.legible hr hbody⟩
    | expression he => exact nomatch he
  | enumeration => simp
  | declare =>
    cases hn with
    | declare hv => exact List.forall_mem_singleton.2 (legible_declare (spelled_binder hv))
    | expression he => exact nomatch he
  | assign hvalued =>
    cases hn with
    | assign hv hvalue =>
      have hbinder := Code.Binder.startsLine_text (spelled_binder (s := s) hv)
      have htext := startsLine_of_initializer hr hv.type hvalue hvalued
      exact List.forall_mem_singleton.2 (legible_statement
        (((hbinder.append (by decide)).append htext.oneLine).append (by decide)))
    | expression he => exact nomatch he
  | yield hvalued =>
    cases hn with
    | yield he =>
      have hstart : StartsLine "return " := by decide
      exact List.forall_mem_singleton.2 (legible_statement
        ((hstart.append (startsLine_of_valued he hvalued).oneLine).append (by decide)))
    | expression he => exact nomatch he
  | print hprints =>
    cases hn with
    | print hargs => exact List.forall_mem_map.2 (legible_prints hargs hprints)
    | expression he => exact nomatch he
  | expression hexpression hvalued =>
    have he : WellFormed.Expression n := by
      cases hn with
      | expression he => exact he
      | _ => exact nomatch hexpression
    exact List.forall_mem_singleton.2
      (legible_statement ((startsLine_of_valued he hvalued).append (by decide)))

theorem LaysAll.legible {Γ : List Enclosing} {bound : List Variable} {earlier ns : List Node}
    {ts : List CodeTree} (hr : ∀ l ∈ r.enums, l.Worded) (hns : ∀ n ∈ ns, WellFormed.Statement n)
    (h : LaysAll s r fs Γ bound earlier ns ts) : ∀ t ∈ ts, t.Legible := by
  cases h with
  | nil => simp
  | cons hn hrest =>
    obtain ⟨hwell, hwells⟩ := List.forall_mem_cons.1 hns
    exact List.forall_mem_append.2 ⟨hn.legible hr hwell, hrest.legible hr hwells⟩

end

theorem legible_functions {ns : List Node} {tss : List (List CodeTree)}
    (hr : ∀ l ∈ r.enums, l.Worded) (hns : ∀ n ∈ ns, WellFormed.Statement n)
    (h : List.Forall₂ (Lays s r fs []) ns tss) : ∀ t ∈ tss.flatten, t.Legible := by
  induction h with
  | nil => simp
  | cons hn _ ih =>
    obtain ⟨hwell, hwells⟩ := List.forall_mem_cons.1 hns
    exact List.forall_mem_append.2 ⟨hn.legible hr hwell, ih hwells⟩

theorem LaysProgram.legible {nodes : List Node} {ts : List CodeTree}
    (hr : ∀ l ∈ r.enums, l.Worded) (hnodes : ∀ n ∈ nodes, WellFormed.Statement n)
    (h : LaysProgram s r nodes ts) : ∀ t ∈ ts, t.Legible := by
  have hfunctions : ∀ n ∈ Lowering.functions nodes, WellFormed.Statement n :=
    fun n hn => hnodes n (Lowering.mem_functions.1 hn).1
  have hstatements : ∀ n ∈ Lowering.statements nodes, WellFormed.Statement n :=
    fun n hn => hnodes n (Lowering.mem_statements.1 hn).1
  cases h with
  | functions _ _ htss => exact legible_functions hr hfunctions htss
  | main _ _ htss hts =>
    refine List.forall_mem_append.2 ⟨legible_functions hr hfunctions htss, ?_⟩
    refine List.forall_mem_singleton.2 (.block (by decide) ?_ (by simp))
    refine List.forall_mem_append.2 ⟨hts.legible hr hstatements, ?_⟩
    exact List.forall_mem_singleton.2 (legible_statement (by decide))
  | inOrder _ hts => exact hts.legible hr hnodes

end Statements

end SumLang
