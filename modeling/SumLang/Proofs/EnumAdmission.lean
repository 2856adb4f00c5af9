import Mathlib.Data.List.Nodup
import SumLang.EnumLayout.Registry

/-! What a registry checks. A definition is registered exactly if its names go together with those
of the enums before it; a list of definitions is registered exactly if all their names go together,
whatever the order. -/
namespace SumLang

section Checks

variable {ε α β : Type}

theorem bind_eq_ok_iff {x : Except ε α} {f : α → Except ε β} {b : β} :
    x >>= f = .ok b ↔ ∃ a, x = .ok a ∧ f a = .ok b := by
  cases x with
  | error e => exact ⟨nofun, nofun⟩
  | ok a => exact ⟨fun h => ⟨a, rfl, h⟩, fun ⟨_, ha, h⟩ => Except.ok.inj ha ▸ h⟩

/-- A check that may throw lets the rest go on exactly if it finds nothing. -/
theorem check_eq_ok_iff {p : Prop} [Decidable p] {e : ε} {f : Unit → Except ε β} {b : β} :
    (if p then throw e >>= f else f ()) = .ok b ↔ ¬p ∧ f () = .ok b := by
  by_cases hp : p
  · rw [if_pos hp]
    exact ⟨nofun, fun h => absurd hp h.1⟩
  · rw [if_neg hp]
    exact ⟨fun h => ⟨hp, h⟩, fun h => h.2⟩

theorem forM_eq_ok_iff {f : α → Except ε Unit} {as : List α} {u : Unit} :
    as.forM f = .ok u ↔ ∀ a ∈ as, f a = .ok u := by
  induction as with
  | nil => exact ⟨fun _ => by simp, fun _ => rfl⟩
  | cons a as ih =>
    rw [List.forall_mem_cons, ← ih]
    exact bind_eq_ok_iff.trans ⟨fun ⟨_, h, h'⟩ => ⟨h, h'⟩, fun ⟨h, h'⟩ => ⟨u, h, h'⟩⟩

/-- Where keys are distinct, a search by key finds exactly the item that has it. -/
theorem find?_key_eq_some_iff {f : α → String} {as : List α} (h : (as.map f).Nodup) {x : String}
    {a : α} : as.find? (f · == x) = some a ↔ a ∈ as ∧ f a = x := by
  constructor
  · intro hfind
    exact ⟨List.mem_of_find?_eq_some hfind, by simpa using List.find?_some hfind⟩
  · rintro ⟨ha, rfl⟩
    obtain ⟨b, hfind⟩ := Option.isSome_iff_exists.1
      (List.find?_isSome.2 ⟨a, ha, beq_self_eq_true (f a)⟩ : (as.find? (f · == f a)).isSome)
    have hb : b ∈ as := List.mem_of_find?_eq_some hfind
    have hkey : f b = f a := by simpa using List.find?_some hfind
    rw [hfind, List.inj_on_of_nodup_map h hb ha hkey]

end Checks

def EnumCase.layout (enum : String) (c : EnumCase) : CaseLayout := ⟨enum, c.name, c.values⟩

/-- The layout of a definition, which other enums have no influence on. -/
def EnumDefinition.layout (d : EnumDefinition) : EnumLayout :=
  ⟨d.name, d.cases.map (EnumCase.layout d.name)⟩

/-- The three names that a case generates differ in their lengths. -/
theorem CaseLayout.nodup_identifiers (c : CaseLayout) : c.identifiers.Nodup := by
  have htag : c.tag.length = c.structName.length + 3 := String.length_append _ _
  have hconstructor : c.constructor.length = c.structName.length + 10 := by
    have hcreate : "Create".length = 6 := rfl
    have hcase : "Case".length = 4 := rfl
    simp only [CaseLayout.constructor, CaseLayout.structName, String.length_append]
    omega
  have hne {a b : String} (h : a.length ≠ b.length) : a ≠ b := fun heq => h (by rw [heq])
  have hst : c.structName ≠ c.tag := hne (by omega)
  have hsc : c.structName ≠ c.constructor := hne (by omega)
  have htc : c.tag ≠ c.constructor := hne (by omega)
  simp [CaseLayout.identifiers, hst, hsc, htc]

namespace EnumLayout

def extend (l : EnumLayout) (ks : List CaseLayout) : EnumLayout := ⟨l.name, l.cases ++ ks⟩

@[simp] theorem extend_nil (l : EnumLayout) : l.extend [] = l := by
  simp [extend]

theorem extend_cons (l : EnumLayout) (k : CaseLayout) (ks : List CaseLayout) :
    l.extend (k :: ks) = (l.extend [k]).extend ks := by
  simp [extend]

theorem identifiers_extend (l : EnumLayout) (ks : List CaseLayout) :
    (l.extend ks).identifiers = l.identifiers ++ ks.flatMap CaseLayout.identifiers := by
  simp [extend, identifiers, tagType]

theorem isSome_case?_iff {l : EnumLayout} {name : String} :
    (l.case? name).isSome = true ↔ name ∈ l.caseNames := by
  simp [case?, caseNames]

/-- The names inside an enum are distinct and no words of C or C++. -/
structure WellNamed (l : EnumLayout) : Prop where
  name : isReserved l.name = false
  caseNames : l.caseNames.Nodup
  members : (l.cases.map CaseLayout.member).Nodup
  tag : ∀ c ∈ l.cases, c.member ≠ tagMember
  memberWords : ∀ c ∈ l.cases, isReserved c.member = false
  fieldWords : ∀ c ∈ l.cases, ∀ v ∈ c.fields, isReserved v.name = false

theorem WellNamed.case?_eq_some_iff {l : EnumLayout} (h : l.WellNamed) {name : String}
    {k : CaseLayout} : l.case? name = some k ↔ k ∈ l.cases ∧ k.name = name :=
  find?_key_eq_some_iff h.caseNames

end EnumLayout

/-- The names of some enums go together. Nothing here depends on an order. -/
structure Compatible (ls : List EnumLayout) : Prop where
  names : (ls.map EnumLayout.name).Nodup
  wellNamed : ∀ l ∈ ls, l.WellNamed
  identifiers : (ls.flatMap EnumLayout.identifiers).Nodup

namespace Registry

def ofLayouts (ls : List EnumLayout) : Registry := ⟨ls, ls.flatMap EnumLayout.identifiers⟩

/-- The registry has room for a layout, apart from its own name. -/
structure Fits (r : Registry) (l : EnumLayout) : Prop where
  wellNamed : l.WellNamed
  nodup : l.identifiers.Nodup
  free : ∀ i ∈ l.identifiers, i ∉ r.generated

variable {r : Registry} {l : EnumLayout}

theorem checkName_eq_ok_iff {enum name : String} {u : Unit} :
    checkName enum name = .ok u ↔ isReserved name = false := by
  unfold checkName
  split <;> simp_all

structure AdmitsCase (r : Registry) (l : EnumLayout) (k : CaseLayout) : Prop where
  name : k.name ∉ l.caseNames
  memberWord : isReserved k.member = false
  fieldWords : ∀ v ∈ k.fields, isReserved v.name = false
  identifiers : ∀ i ∈ k.identifiers, i ∉ l.identifiers ∧ i ∉ r.generated
  member : k.member ∉ l.members

theorem layOutCase_eq_ok_iff {c : EnumCase} {k : CaseLayout} :
    r.layOutCase l c = .ok k ↔ k = c.layout l.name ∧ r.AdmitsCase l k := by
  unfold layOutCase
  simp only [check_eq_ok_iff, bind_eq_ok_iff, checkName_eq_ok_iff, forM_eq_ok_iff,
    EnumLayout.isSome_case?_iff, exists_const]
  constructor
  · rintro ⟨hname, hmemberWord, hfieldWords, h⟩
    split at h
    · obtain ⟨_, h, -⟩ := bind_eq_ok_iff.1 h
      exact nomatch h
    · next hfind =>
      obtain ⟨hmember, h⟩ := check_eq_ok_iff.1 h
      obtain rfl := Except.ok.inj h
      refine ⟨rfl, hname, hmemberWord, hfieldWords, fun i hi => ?_, by simpa using hmember⟩
      simpa using List.find?_eq_none.1 hfind i hi
  · rintro ⟨rfl, h⟩
    have hfind : (c.layout l.name).identifiers.find?
        (fun i => l.identifiers.contains i || r.generated.contains i) = none :=
      List.find?_eq_none.2 fun i hi => by simpa using h.identifiers i hi
    have hmember : ¬ l.members.contains (c.layout l.name).member = true := by
      simpa using h.member
    refine ⟨h.name, h.memberWord, h.fieldWords, ?_⟩
    unfold EnumCase.layout at hfind hmember
    rw [hfind]
    exact check_eq_ok_iff.2 ⟨hmember, rfl⟩

/-- A layout with one more case fits exactly if the layout does and the case is admitted to it. -/
theorem fits_snoc_iff {k : CaseLayout} :
    r.Fits (l.extend [k]) ↔ r.Fits l ∧ r.AdmitsCase l k := by
  have hcases (p : CaseLayout → Prop) :
      (∀ c ∈ (l.extend [k]).cases, p c) ↔ (∀ c ∈ l.cases, p c) ∧ p k := by
    simp [EnumLayout.extend, or_imp, forall_and]
  have hnodup (f : CaseLayout → String) : ((l.extend [k]).cases.map f).Nodup ↔
      (l.cases.map f).Nodup ∧ f k ∉ l.cases.map f := by
    rw [EnumLayout.extend, List.map_append, List.map_singleton, ← List.concat_eq_append,
      List.nodup_concat, and_comm]
  have hmember : k.member ∉ l.members ↔
      k.member ≠ EnumLayout.tagMember ∧ k.member ∉ l.cases.map CaseLayout.member := by
    rw [EnumLayout.members, List.mem_cons, not_or]
  have hids : (l.extend [k]).identifiers = l.identifiers ++ k.identifiers := by
    simp [EnumLayout.identifiers_extend]
  constructor
  · rintro ⟨h, hid, hfree⟩
    rw [hids] at hid hfree
    obtain ⟨hl, -, hne⟩ := List.nodup_append.1 hid
    obtain ⟨hcaseNames, hname⟩ := (hnodup _).1 h.caseNames
    obtain ⟨hmembers, hnew⟩ := (hnodup _).1 h.members
    obtain ⟨htags, htag⟩ := (hcases _).1 h.tag
    obtain ⟨hmemberWords, hmemberWord⟩ := (hcases _).1 h.memberWords
    obtain ⟨hfieldWords, hfieldWord⟩ := (hcases _).1 h.fieldWords
    refine ⟨⟨⟨h.name, hcaseNames, hmembers, htags, hmemberWords, hfieldWords⟩, hl, fun i hi => ?_⟩,
      ⟨hname, hmemberWord, hfieldWord, fun i hi => ⟨fun hi' => ?_, ?_⟩, hmember.2 ⟨htag, hnew⟩⟩⟩
    · exact hfree i (List.mem_append_left _ hi)
    · exact hne i hi' i hi rfl
    · exact hfree i (List.mem_append_right _ hi)
  · rintro ⟨⟨h, hl, hfree⟩, hk⟩
    obtain ⟨htag, hnew⟩ := hmember.1 hk.member
    refine ⟨⟨h.name, (hnodup _).2 ⟨h.caseNames, hk.name⟩, (hnodup _).2 ⟨h.members, hnew⟩,
      (hcases _).2 ⟨h.tag, htag⟩, (hcases _).2 ⟨h.memberWords, hk.memberWord⟩,
      (hcases _).2 ⟨h.fieldWords, hk.fieldWords⟩⟩, ?_, ?_⟩
    · rw [hids]
      refine List.nodup_append.2 ⟨hl, k.nodup_identifiers, fun i hi j hj hij => ?_⟩
      exact (hk.identifiers j hj).1 (hij ▸ hi)
    · rw [hids]
      intro i hi
      rcases List.mem_append.1 hi with hi | hi
      · exact hfree i hi
      · exact (hk.identifiers i hi).2

theorem Fits.of_extend {ks : List CaseLayout} (h : r.Fits (l.extend ks)) : r.Fits l := by
  induction ks generalizing l with
  | nil => rwa [EnumLayout.extend_nil] at h
  | cons k ks ih =>
    rw [EnumLayout.extend_cons] at h
    exact (fits_snoc_iff.1 (ih h)).1

theorem layOutCases_eq_ok_iff (hl : r.Fits l) {cs : List EnumCase} {l' : EnumLayout} :
    r.layOutCases l cs = .ok l' ↔
      l' = l.extend (cs.map (EnumCase.layout l.name)) ∧ r.Fits l' := by
  induction cs generalizing l with
  | nil =>
    rw [List.map_nil, EnumLayout.extend_nil]
    exact ⟨fun h => Except.ok.inj h ▸ ⟨rfl, hl⟩, fun ⟨h, _⟩ => h ▸ rfl⟩
  | cons c cs ih =>
    rw [List.map_cons, EnumLayout.extend_cons]
    constructor
    · intro h
      obtain ⟨k, hk, h⟩ := bind_eq_ok_iff.1 h
      obtain ⟨rfl, hadmits⟩ := layOutCase_eq_ok_iff.1 hk
      exact (ih (fits_snoc_iff.2 ⟨hl, hadmits⟩)).1 h
    · rintro ⟨hl', hfits⟩
      have hsnoc : r.Fits (l.extend [c.layout l.name]) := Fits.of_extend (hl' ▸ hfits)
      have hadmits := (fits_snoc_iff.1 hsnoc).2
      exact bind_eq_ok_iff.2 ⟨_, layOutCase_eq_ok_iff.2 ⟨rfl, hadmits⟩, (ih hsnoc).2 ⟨hl', hfits⟩⟩

theorem fits_nil_iff {name : String} :
    r.Fits ⟨name, []⟩ ↔
      isReserved name = false ∧ EnumLayout.tagType ⟨name, []⟩ ∉ r.generated := by
  constructor
  · rintro ⟨h, -, hfree⟩
    exact ⟨h.name, hfree _ (by simp [EnumLayout.identifiers])⟩
  · rintro ⟨hname, htag⟩
    refine ⟨⟨hname, ?_, ?_, ?_, ?_, ?_⟩, ?_, ?_⟩ <;>
      simp_all [EnumLayout.identifiers, EnumLayout.caseNames]

theorem contains_iff {enum : String} :
    r.contains enum = true ↔ enum ∈ r.enums.map EnumLayout.name := by
  simp [contains, get?]

/-- A definition is laid out exactly if its name is new and its layout fits. -/
theorem layOut_eq_ok_iff {d : EnumDefinition} :
    r.layOut d = .ok l ↔
      l = d.layout ∧ d.name ∉ r.enums.map EnumLayout.name ∧ r.Fits l := by
  have hbase :
      EnumLayout.extend ⟨d.name, []⟩ (d.cases.map (EnumCase.layout d.name)) = d.layout := by
    simp [EnumLayout.extend, EnumDefinition.layout]
  unfold layOut
  simp only [check_eq_ok_iff, bind_eq_ok_iff, checkName_eq_ok_iff, exists_const, contains_iff,
    List.contains_iff_mem]
  constructor
  · rintro ⟨hname, hword, htag, h⟩
    obtain ⟨hl, hfits⟩ := (layOutCases_eq_ok_iff (fits_nil_iff.2 ⟨hword, htag⟩)).1 h
    exact ⟨hl.trans hbase, hname, hfits⟩
  · rintro ⟨rfl, hname, hfits⟩
    rw [← hbase] at hfits
    have hnil : r.Fits ⟨d.name, []⟩ := hfits.of_extend
    obtain ⟨hword, htag⟩ := fits_nil_iff.1 hnil
    exact ⟨hname, hword, htag, (layOutCases_eq_ok_iff hnil).2 ⟨hbase.symm, hbase ▸ hfits⟩⟩

end Registry

theorem compatible_nil : Compatible [] := ⟨by simp, by simp, by simp⟩

/-- One more enum goes together with others exactly if its name is new and their registry has room
for it. -/
theorem compatible_snoc_iff {ls : List EnumLayout} {l : EnumLayout} :
    Compatible (ls ++ [l]) ↔
      Compatible ls ∧ l.name ∉ ls.map EnumLayout.name ∧ (Registry.ofLayouts ls).Fits l := by
  have hids : (ls ++ [l]).flatMap EnumLayout.identifiers =
      ls.flatMap EnumLayout.identifiers ++ l.identifiers := by simp
  have hnames : ((ls ++ [l]).map EnumLayout.name).Nodup ↔
      l.name ∉ ls.map EnumLayout.name ∧ (ls.map EnumLayout.name).Nodup := by
    rw [List.map_append, List.map_singleton, ← List.concat_eq_append, List.nodup_concat]
  constructor
  · rintro ⟨hname, hwell, hid⟩
    rw [hids] at hid
    obtain ⟨hls, hl, hne⟩ := List.nodup_append.1 hid
    obtain ⟨hnew, hname⟩ := hnames.1 hname
    refine ⟨⟨hname, fun k hk => hwell k (by simp [hk]), hls⟩, hnew, hwell l (by simp), hl, ?_⟩
    exact fun i hi hi' => hne i hi' i hi rfl
  · rintro ⟨⟨hname, hwell, hls⟩, hnew, hfits⟩
    refine ⟨hnames.2 ⟨hnew, hname⟩, fun k hk => ?_, ?_⟩
    · rcases List.mem_append.1 hk with hk | hk
      · exact hwell k hk
      · exact List.mem_singleton.1 hk ▸ hfits.wellNamed
    · rw [hids]
      refine List.nodup_append.2 ⟨hls, hfits.nodup, fun i hi j hj hij => ?_⟩
      exact hfits.free j hj (hij ▸ hi)

theorem Compatible.of_append {ls ks : List EnumLayout} (h : Compatible (ls ++ ks)) :
    Compatible ls := by
  induction ks generalizing ls with
  | nil => rwa [List.append_nil] at h
  | cons k ks ih => exact (compatible_snoc_iff.1 (ih (by simpa using h))).1

namespace Registry

variable {ls : List EnumLayout}

theorem insert_ofLayouts (l : EnumLayout) : (ofLayouts ls).insert l = ofLayouts (ls ++ [l]) := by
  simp [insert, ofLayouts]

/-- One registration: the definition goes together with what is registered, or is refused. -/
theorem layOut_ofLayouts (h : Compatible ls) {d : EnumDefinition} {l : EnumLayout} :
    (ofLayouts ls).layOut d = .ok l ↔ l = d.layout ∧ Compatible (ls ++ [d.layout]) := by
  rw [layOut_eq_ok_iff, compatible_snoc_iff]
  constructor
  · rintro ⟨rfl, hname, hfits⟩
    exact ⟨rfl, h, hname, hfits⟩
  · rintro ⟨rfl, -, hname, hfits⟩
    exact ⟨rfl, hname, hfits⟩

theorem register_ofLayouts (h : Compatible ls) {d : EnumDefinition} {r : Registry} :
    (ofLayouts ls).register d = .ok r ↔
      r = ofLayouts (ls ++ [d.layout]) ∧ Compatible (ls ++ [d.layout]) := by
  have hmap : (ofLayouts ls).register d = .ok r ↔
      ∃ l, (ofLayouts ls).layOut d = .ok l ∧ (ofLayouts ls).insert l = r := by
    unfold register
    cases (ofLayouts ls).layOut d <;> simp [Except.map]
  rw [hmap]
  constructor
  · rintro ⟨l, hl, rfl⟩
    obtain ⟨rfl, hls⟩ := (layOut_ofLayouts h).1 hl
    exact ⟨insert_ofLayouts _, hls⟩
  · rintro ⟨rfl, hls⟩
    exact ⟨d.layout, (layOut_ofLayouts h).2 ⟨rfl, hls⟩, insert_ofLayouts _⟩

/-- Registration in order: it succeeds exactly if everything goes together. -/
theorem registerAll_ofLayouts (h : Compatible ls) {ds : List EnumDefinition} {r : Registry} :
    (ofLayouts ls).registerAll ds = .ok r ↔
      r = ofLayouts (ls ++ ds.map EnumDefinition.layout) ∧
        Compatible (ls ++ ds.map EnumDefinition.layout) := by
  induction ds generalizing ls with
  | nil =>
    rw [List.map_nil, List.append_nil]
    exact ⟨fun hr => ⟨(Except.ok.inj hr).symm, h⟩, fun hr => hr.1 ▸ rfl⟩
  | cons d ds ih =>
    have happend : ls ++ (d :: ds).map EnumDefinition.layout =
        ls ++ [d.layout] ++ ds.map EnumDefinition.layout := by simp
    rw [happend]
    constructor
    · intro hr
      obtain ⟨r', hd, hr⟩ := bind_eq_ok_iff.1 hr
      obtain ⟨rfl, hls⟩ := (register_ofLayouts h).1 hd
      exact (ih hls).1 hr
    · rintro ⟨rfl, hall⟩
      have hls : Compatible (ls ++ [d.layout]) := hall.of_append
      exact bind_eq_ok_iff.2 ⟨_, (register_ofLayouts h).2 ⟨rfl, hls⟩, (ih hls).2 ⟨rfl, hall⟩⟩

theorem registerAll_empty_iff {ds : List EnumDefinition} {r : Registry} :
    empty.registerAll ds = .ok r ↔
      r = ofLayouts (ds.map EnumDefinition.layout) ∧ Compatible (ds.map EnumDefinition.layout) :=
  registerAll_ofLayouts compatible_nil

theorem lookup_eq_ok_iff {r : Registry} {enum case : String} {k : CaseLayout} :
    r.lookup enum case = .ok k ↔ ∃ l, r.get? enum = some l ∧ l.case? case = some k := by
  unfold lookup
  cases r.get? enum with
  | none => simp
  | some l => cases hk : l.case? case <;> simp [hk]

theorem get?_ofLayouts (h : Compatible ls) {enum : String} {l : EnumLayout} :
    (ofLayouts ls).get? enum = some l ↔ l ∈ ls ∧ l.name = enum :=
  find?_key_eq_some_iff h.names

/-- Among enums that go together, a look-up finds a case exactly where there is one. -/
theorem lookup_ofLayouts (h : Compatible ls) {enum case : String} {k : CaseLayout} :
    (ofLayouts ls).lookup enum case = .ok k ↔
      ∃ l ∈ ls, l.name = enum ∧ k ∈ l.cases ∧ k.name = case := by
  rw [lookup_eq_ok_iff]
  constructor
  · rintro ⟨l, hl, hk⟩
    obtain ⟨hmem, hname⟩ := (get?_ofLayouts h).1 hl
    exact ⟨l, hmem, hname, ((h.wellNamed l hmem).case?_eq_some_iff).1 hk⟩
  · rintro ⟨l, hmem, hname, hk⟩
    exact ⟨l, (get?_ofLayouts h).2 ⟨hmem, hname⟩, ((h.wellNamed l hmem).case?_eq_some_iff).2 hk⟩

end Registry

end SumLang
