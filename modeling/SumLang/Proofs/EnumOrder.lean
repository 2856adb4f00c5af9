import Mathlib.Data.List.Perm.Basic
import SumLang.Proofs.EnumAdmission

/-! The order of enums, and of the cases of an enum, does not matter for what is accepted. -/
namespace SumLang

namespace EnumLayout

/-- The same enum, perhaps with its cases in another order. -/
def SameCases (l l' : EnumLayout) : Prop := l.name = l'.name ∧ l.cases.Perm l'.cases

namespace SameCases

variable {l l' : EnumLayout}

theorem symm (h : l.SameCases l') : l'.SameCases l := ⟨h.1.symm, h.2.symm⟩

theorem caseNames (h : l.SameCases l') : l.caseNames.Perm l'.caseNames := h.2.map _

theorem identifiers (h : l.SameCases l') : l.identifiers.Perm l'.identifiers := by
  have htag : l.tagType = l'.tagType := by rw [tagType, tagType, h.1]
  rw [EnumLayout.identifiers, EnumLayout.identifiers, htag]
  exact (h.2.flatMap_right _).cons _

theorem wellNamed (h : l.SameCases l') (hl : l.WellNamed) : l'.WellNamed where
  name := h.1 ▸ hl.name
  caseNames := h.caseNames.nodup_iff.1 hl.caseNames
  members := (h.2.map _).nodup_iff.1 hl.members
  tag c hc := hl.tag c (h.2.mem_iff.2 hc)
  memberWords c hc := hl.memberWords c (h.2.mem_iff.2 hc)
  fieldWords c hc := hl.fieldWords c (h.2.mem_iff.2 hc)

theorem case?_eq (h : l.SameCases l') (hl : l.WellNamed) (name : String) :
    l.case? name = l'.case? name := by
  refine Option.ext fun k => ?_
  rw [hl.case?_eq_some_iff, (h.wellNamed hl).case?_eq_some_iff, h.2.mem_iff]

end SameCases

end EnumLayout

/-- The same enums, perhaps in another order and each with its cases in another order. -/
def SameEnums (ls ls' : List EnumLayout) : Prop :=
  ∃ ks, ls.Perm ks ∧ List.Forall₂ EnumLayout.SameCases ks ls'

namespace SameEnums

variable {ls ls' : List EnumLayout}

theorem symm (h : SameEnums ls ls') : SameEnums ls' ls := by
  obtain ⟨ks, hperm, hsame⟩ := h
  obtain ⟨ms, hsame', hperm'⟩ := List.perm_comp_forall₂ hperm hsame
  exact ⟨ms, hperm'.symm, (hsame'.imp fun _ _ => EnumLayout.SameCases.symm).flip⟩

theorem exists_of_mem (h : SameEnums ls ls') {l : EnumLayout} (hl : l ∈ ls) :
    ∃ l' ∈ ls', l.SameCases l' := by
  obtain ⟨ks, hperm, hsame⟩ := h
  have hmem : l ∈ ks := hperm.mem_iff.1 hl
  clear hl hperm
  induction hsame with
  | nil => simp at hmem
  | @cons k l' ks ls' hk _ ih =>
    rcases List.mem_cons.1 hmem with rfl | hmem
    · exact ⟨l', List.mem_cons_self, hk⟩
    · obtain ⟨m, hm, hsame⟩ := ih hmem
      exact ⟨m, List.mem_cons_of_mem _ hm, hsame⟩

theorem names (h : SameEnums ls ls') :
    (ls.map EnumLayout.name).Perm (ls'.map EnumLayout.name) := by
  obtain ⟨ks, hperm, hsame⟩ := h
  refine (hperm.map _).trans (List.Perm.of_eq ?_)
  clear hperm
  induction hsame with
  | nil => rfl
  | cons hk _ ih => rw [List.map_cons, List.map_cons, hk.1, ih]

theorem identifiers (h : SameEnums ls ls') :
    (ls.flatMap EnumLayout.identifiers).Perm (ls'.flatMap EnumLayout.identifiers) := by
  obtain ⟨ks, hperm, hsame⟩ := h
  refine (hperm.flatMap_right _).trans ?_
  clear hperm
  induction hsame with
  | nil => exact .refl _
  | cons hk _ ih =>
    rw [List.flatMap_cons, List.flatMap_cons]
    exact hk.identifiers.append ih

theorem compatible (h : SameEnums ls ls') (hls : Compatible ls) : Compatible ls' where
  names := h.names.nodup_iff.1 hls.names
  wellNamed l' hl' := by
    obtain ⟨l, hl, hsame⟩ := h.symm.exists_of_mem hl'
    exact hsame.symm.wellNamed (hls.wellNamed l hl)
  identifiers := h.identifiers.nodup_iff.1 hls.identifiers

end SameEnums

/-- Two look-ups have the same answer: the same case, or the same fault, where the cases that an
enum does have may be listed in another order. -/
inductive SameAnswer : Except EnumFault CaseLayout → Except EnumFault CaseLayout → Prop where
  | found (k : CaseLayout) : SameAnswer (.ok k) (.ok k)
  | unknownEnum (enum : String) :
    SameAnswer (.error (.unknownEnum enum)) (.error (.unknownEnum enum))
  | unknownCase (enum case : String) {known known' : List String} : known.Perm known' →
    SameAnswer (.error (.unknownCase enum case known)) (.error (.unknownCase enum case known'))

theorem SameEnums.lookup {ls ls' : List EnumLayout} (h : SameEnums ls ls') (hls : Compatible ls)
    (enum case : String) :
    SameAnswer ((Registry.ofLayouts ls).lookup enum case)
      ((Registry.ofLayouts ls').lookup enum case) := by
  have hls' := h.compatible hls
  unfold Registry.lookup
  cases hget : (Registry.ofLayouts ls).get? enum with
  | none =>
    have hget' : (Registry.ofLayouts ls').get? enum = none := by
      refine Option.eq_none_iff_forall_ne_some.2 fun l' hl' => ?_
      obtain ⟨hmem', hname'⟩ := (Registry.get?_ofLayouts hls').1 hl'
      obtain ⟨l, hmem, hsame⟩ := h.symm.exists_of_mem hmem'
      have hl := (Registry.get?_ofLayouts hls).2 ⟨hmem, hsame.1.symm.trans hname'⟩
      rw [hget] at hl
      exact nomatch hl
    rw [hget']
    exact .unknownEnum enum
  | some l =>
    obtain ⟨hmem, hname⟩ := (Registry.get?_ofLayouts hls).1 hget
    obtain ⟨l', hmem', hsame⟩ := h.exists_of_mem hmem
    have hget' : (Registry.ofLayouts ls').get? enum = some l' :=
      (Registry.get?_ofLayouts hls').2 ⟨hmem', hsame.1.symm.trans hname⟩
    have hcase := hsame.case?_eq (hls.wellNamed l hmem) case
    rw [hget']
    simp only [← hcase]
    cases l.case? case with
    | none => exact .unknownCase enum case hsame.caseNames
    | some k => exact .found k

/-- The same definitions, perhaps in another order and each with its cases in another order. -/
def Rearranged (ds ds' : List EnumDefinition) : Prop :=
  ∃ es, ds.Perm es ∧
    List.Forall₂ (fun d d' => d.name = d'.name ∧ d.cases.Perm d'.cases) es ds'

theorem Rearranged.sameEnums {ds ds' : List EnumDefinition} (h : Rearranged ds ds') :
    SameEnums (ds.map EnumDefinition.layout) (ds'.map EnumDefinition.layout) := by
  obtain ⟨es, hperm, hsame⟩ := h
  refine ⟨es.map EnumDefinition.layout, hperm.map _, ?_⟩
  rw [List.forall₂_map_left_iff, List.forall₂_map_right_iff]
  refine hsame.imp fun d d' ⟨hname, hcases⟩ => ⟨hname, ?_⟩
  rw [EnumDefinition.layout, EnumDefinition.layout, hname]
  exact hcases.map _

/-- Definitions are accepted in order exactly if their names go together. So no rearrangement
changes whether they are accepted, or what a look-up then answers. -/
theorem registerAll_ok_iff_compatible (ds : List EnumDefinition) :
    ((∃ r, Registry.empty.registerAll ds = .ok r) ↔
      Compatible (ds.map EnumDefinition.layout)) ∧
    ∀ ds', Rearranged ds ds' →
      ((∃ r, Registry.empty.registerAll ds = .ok r) ↔
        ∃ r', Registry.empty.registerAll ds' = .ok r') ∧
      ∀ r r', Registry.empty.registerAll ds = .ok r → Registry.empty.registerAll ds' = .ok r' →
        ∀ enum case, SameAnswer (r.lookup enum case) (r'.lookup enum case) := by
  have hiff (es : List EnumDefinition) : (∃ r, Registry.empty.registerAll es = .ok r) ↔
      Compatible (es.map EnumDefinition.layout) :=
    ⟨fun ⟨_, hr⟩ => (Registry.registerAll_empty_iff.1 hr).2,
      fun h => ⟨_, Registry.registerAll_empty_iff.2 ⟨rfl, h⟩⟩⟩
  refine ⟨hiff ds, fun ds' h => ⟨?_, fun r r' hr hr' enum case => ?_⟩⟩
  · rw [hiff, hiff]
    exact ⟨h.sameEnums.compatible, h.sameEnums.symm.compatible⟩
  · obtain ⟨rfl, hls⟩ := Registry.registerAll_empty_iff.1 hr
    obtain ⟨rfl, -⟩ := Registry.registerAll_empty_iff.1 hr'
    exact h.sameEnums.lookup hls enum case

/-- Two enums in either order, with the cases of one turned around. -/
theorem registerAll_color_shape :
    ∃ r r', Registry.empty.registerAll
        [⟨"Shape", [⟨"Shape", "circle", [⟨.immutable, "Float", "r"⟩]⟩, ⟨"Shape", "empty", []⟩]⟩,
          ⟨"Color", [⟨"Color", "red", []⟩]⟩] = .ok r ∧
      Registry.empty.registerAll
        [⟨"Color", [⟨"Color", "red", []⟩]⟩, ⟨"Shape", [⟨"Shape", "empty", []⟩,
          ⟨"Shape", "circle", [⟨.immutable, "Float", "r"⟩]⟩]⟩] = .ok r' ∧
      ∀ enum case, SameAnswer (r.lookup enum case) (r'.lookup enum case) := by
  have hr : Registry.empty.registerAll
      [⟨"Shape", [⟨"Shape", "circle", [⟨.immutable, "Float", "r"⟩]⟩, ⟨"Shape", "empty", []⟩]⟩,
        ⟨"Color", [⟨"Color", "red", []⟩]⟩] = .ok _ := rfl
  have hr' : Registry.empty.registerAll
      [⟨"Color", [⟨"Color", "red", []⟩]⟩, ⟨"Shape", [⟨"Shape", "empty", []⟩,
        ⟨"Shape", "circle", [⟨.immutable, "Float", "r"⟩]⟩]⟩] = .ok _ := rfl
  refine ⟨_, _, hr, hr', ((registerAll_ok_iff_compatible _).2 _ ?_).2 _ _ hr hr'⟩
  exact ⟨_, .swap _ _ [], .cons ⟨rfl, .refl _⟩ (.cons ⟨rfl, .swap _ _ []⟩ .nil)⟩

end SumLang
