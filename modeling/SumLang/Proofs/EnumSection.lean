import Mathlib.Data.List.Perm.Subperm
import SumLang.EnumLayout.Declaration
import SumLang.Proofs.EnumAdmission

/-! What the declarations of enums declare: the names that they put into file scope, the constants,
and the struct types with their members. -/
namespace SumLang

/-- The name that a line of an enum's declarations puts into file scope: a type where its block
ends, a constant, or a function where its block starts. -/
def Line.fileScope? (l : Line) : Option String :=
  match l.code with
  | .leave defines => defines
  | .enumerator name _ => some name
  | .enter (.function s) => some s.result.name
  | _ => none

def fileScope (ls : List Line) : List String := ls.filterMap Line.fileScope?

@[simp] theorem fileScope_append (ls ks : List Line) :
    fileScope (ls ++ ks) = fileScope ls ++ fileScope ks :=
  List.filterMap_append

theorem fileScope_flatMap {α : Type} (as : List α) (f : α → List Line) :
    fileScope (as.flatMap f) = as.flatMap fun a => fileScope (f a) :=
  List.filterMap_flatMap

theorem fileScope_structType (name : String) (members : List Code.Binder) :
    fileScope (structType name members) = [name] := by
  rw [structType, List.cons_append, fileScope, List.filterMap_cons]
  simp [Line.fileScope?]

theorem fileScope_constructorLines (s : Settings) (enum : String) (c : CaseLayout) :
    fileScope (c.constructorLines s enum) = [c.constructor] := by
  rw [CaseLayout.constructorLines, List.cons_append, fileScope, List.filterMap_cons]
  simp [Line.fileScope?, CaseLayout.signature]

theorem fileScope_tagList (cs : List CaseLayout) :
    fileScope (EnumLayout.tagList cs) = cs.map CaseLayout.tag :=
  (EnumLayout.filterMap_tagList (g := some) (fun _ _ => rfl) cs).trans
    (congrFun List.filterMap_eq_map' cs)

theorem fileScope_tagLines (s : Settings) (l : EnumLayout) :
    fileScope (l.tagLines s) =
      if l.isTagged s then l.cases.map CaseLayout.tag ++ [l.tagType] else [] := by
  unfold EnumLayout.tagLines
  split
  · rw [List.cons_append, ← List.singleton_append, fileScope_append, fileScope_append,
      fileScope_tagList]
    rfl
  · rfl

theorem fileScope_lines (s : Settings) (l : EnumLayout) :
    fileScope (l.lines s) = l.cases.map CaseLayout.structName ++
      (if l.isTagged s then l.cases.map CaseLayout.tag ++ [l.tagType] else []) ++ [l.name] ++
        l.cases.map CaseLayout.constructor := by
  simp [EnumLayout.lines, EnumLayout.outerLines, CaseLayout.structLines, fileScope_flatMap,
    fileScope_structType, fileScope_constructorLines, fileScope_tagLines, List.map_eq_flatMap]

/-- Every name that an enum puts into file scope is its own or a generated one, and each of these
once. -/
theorem fileScope_lines_subperm (s : Settings) (l : EnumLayout) :
    (fileScope (l.lines s)).Subperm (l.name :: l.identifiers) := by
  have hcases : (l.cases.map CaseLayout.structName ++ (l.cases.map CaseLayout.tag ++
      l.cases.map CaseLayout.constructor)).Perm (l.cases.flatMap CaseLayout.identifiers) := by
    simp only [List.map_eq_flatMap]
    exact ((List.flatMap_append_perm _ _ _).append_left _).trans (List.flatMap_append_perm _ _ _)
  have hsub : (fileScope (l.lines s)).Sublist (l.cases.map CaseLayout.structName ++
      (l.cases.map CaseLayout.tag ++ [l.tagType]) ++ [l.name] ++
        l.cases.map CaseLayout.constructor) := by
    rw [fileScope_lines]
    refine (List.Sublist.append_right ?_ _).append_right _
    refine List.Sublist.append_left ?_ _
    split
    · exact .refl _
    · exact List.nil_sublist _
  refine hsub.subperm.trans (List.Perm.subperm ?_)
  refine List.Perm.trans ?_ ((hcases.cons l.tagType).cons l.name)
  refine List.perm_iff_count.2 fun i => ?_
  simp only [List.count_append, List.count_cons, List.count_nil]
  omega

/-- A generated name starts with an underscore. -/
theorem head?_of_mem_identifiers {l : EnumLayout} {i : String} (h : i ∈ l.identifiers) :
    i.toList.head? = some '_' := by
  simp only [EnumLayout.identifiers, List.mem_cons, List.mem_flatMap, CaseLayout.identifiers,
    List.not_mem_nil, or_false] at h
  rcases h with rfl | ⟨c, -, rfl | rfl | rfl⟩ <;>
    simp [EnumLayout.tagType, CaseLayout.structName, CaseLayout.tag, CaseLayout.constructor]

namespace Compatible

variable {ls : List EnumLayout}

/-- Enums that start with no underscore are told apart from what is generated for them. -/
theorem nodup_names_append (h : Compatible ls) (hls : ∀ l ∈ ls, l.name.toList.head? ≠ some '_') :
    (ls.map EnumLayout.name ++ ls.flatMap EnumLayout.identifiers).Nodup := by
  refine List.nodup_append.2 ⟨h.names, h.identifiers, fun i hi j hj hij => ?_⟩
  obtain ⟨l, hl, rfl⟩ := List.mem_map.1 hi
  obtain ⟨k, -, hj⟩ := List.mem_flatMap.1 hj
  exact hls l hl (hij ▸ head?_of_mem_identifiers hj)

/-- The declarations of enums that go together put no name twice into file scope. -/
theorem nodup_fileScope (h : Compatible ls) (hls : ∀ l ∈ ls, l.name.toList.head? ≠ some '_')
    (s : Settings) : (fileScope (ls.flatMap (EnumLayout.lines s))).Nodup := by
  have hsub : (fileScope (ls.flatMap (EnumLayout.lines s))).Subperm
      (ls.flatMap fun l => l.name :: l.identifiers) := by
    rw [fileScope_flatMap]
    clear h hls
    induction ls with
    | nil => exact .refl _
    | cons l ls ih =>
      rw [List.flatMap_cons, List.flatMap_cons]
      exact (fileScope_lines_subperm s l).append ih
  have hperm : (ls.map EnumLayout.name ++ ls.flatMap EnumLayout.identifiers).Perm
      (ls.flatMap fun l => l.name :: l.identifiers) := by
    rw [List.map_eq_flatMap]
    exact List.flatMap_append_perm _ _ _
  obtain ⟨names, hnames, hnames'⟩ := hsub
  exact hnames.nodup_iff.1 ((hperm.nodup_iff.1 (h.nodup_names_append hls)).sublist hnames')

end Compatible

def enumerators (ls : List Line) : List String :=
  ls.filterMap fun l =>
    match l.code with
    | .enumerator name _ => some name
    | _ => none

/-- The members that lines declare up to the first that declares none. -/
def declaredMembers : List Line → List Code.Binder
  | ⟨_, .statement (.declare b)⟩ :: ls => b :: declaredMembers ls
  | _ => []

/-- The struct types that some lines define, each with its members. -/
def structTypes : List Line → List (String × List Code.Binder)
  | [] => []
  | ⟨_, .enter (.structType name)⟩ :: ls => (name, declaredMembers ls) :: structTypes ls
  | _ :: ls => structTypes ls

/-- Some lines define a struct type once, and in it declare a member once. -/
def Declares (ls : List Line) (type : String) (b : Code.Binder) : Prop :=
  ∃ members, (structTypes ls).filter (·.1 == type) = [(type, members)] ∧
    members.filter (·.name == b.name) = [b]

theorem enumerators_eq_nil {ls : List Line}
    (h : ∀ l ∈ ls, ∀ name last, l.code ≠ .enumerator name last) : enumerators ls = [] := by
  refine List.filterMap_eq_nil_iff.2 fun l hl => ?_
  split
  · next hcode => exact absurd hcode (h l hl _ _)
  · rfl

theorem code_of_mem_constructorLines {s : Settings} {enum : String} {c : CaseLayout} {k : Line}
    (h : k ∈ c.constructorLines s enum) :
    (∃ sig, k.code = .enter (.function sig)) ∨ (∃ st, k.code = .statement st) ∨
      k.code = .leave none := by
  simp only [CaseLayout.constructorLines, List.cons_append, List.mem_cons, List.mem_append,
    List.mem_map, List.not_mem_nil, or_false] at h
  rcases h with rfl | ⟨st, -, rfl⟩ | rfl
  · exact .inl ⟨_, rfl⟩
  · exact .inr (.inl ⟨_, rfl⟩)
  · exact .inr (.inr rfl)

theorem code_of_mem_tagList {cs : List CaseLayout} {k : Line} (h : k ∈ EnumLayout.tagList cs) :
    ∃ name last, k.code = .enumerator name last := by
  induction cs with
  | nil => simp [EnumLayout.tagList] at h
  | cons c cs ih =>
    cases cs with
    | nil => exact ⟨c.tag, true, by rw [List.mem_singleton.1 h]⟩
    | cons d ds =>
      rcases List.mem_cons.1 h with rfl | h
      · exact ⟨c.tag, false, rfl⟩
      · exact ih h

theorem code_of_mem_tagLines {s : Settings} {l : EnumLayout} {k : Line} (h : k ∈ l.tagLines s) :
    k.code = .enter .enumType ∨ (∃ name last, k.code = .enumerator name last) ∨
      k.code = .leave (some l.tagType) := by
  unfold EnumLayout.tagLines at h
  split at h
  · rcases List.mem_append.1 h with h | h
    · rcases List.mem_cons.1 h with rfl | h
      · exact .inl rfl
      · exact .inr (.inl (code_of_mem_tagList h))
    · exact .inr (.inr (by rw [List.mem_singleton.1 h]))
  · simp at h

theorem enumerators_tagList (cs : List CaseLayout) :
    enumerators (EnumLayout.tagList cs) = cs.map CaseLayout.tag :=
  (EnumLayout.filterMap_tagList (g := some) (fun _ _ => rfl) cs).trans
    (congrFun List.filterMap_eq_map' cs)

/-- The constants of an enum are its tags. -/
theorem enumerators_lines (s : Settings) (l : EnumLayout) :
    enumerators (l.lines s) = if l.isTagged s then l.cases.map CaseLayout.tag else [] := by
  have happend (ls ks : List Line) : enumerators (ls ++ ks) = enumerators ls ++ enumerators ks :=
    List.filterMap_append
  have hstruct (name : String) (members : List Code.Binder) :
      ∀ k ∈ structType name members, ∀ x last, k.code ≠ .enumerator x last := by
    simp [structType, or_imp, forall_and]
  have hstructs : enumerators (l.cases.flatMap (CaseLayout.structLines s)) = [] := by
    refine enumerators_eq_nil fun k hk => ?_
    obtain ⟨c, -, hk⟩ := List.mem_flatMap.1 hk
    exact hstruct _ _ k hk
  have hconstructors :
      enumerators (l.cases.flatMap (CaseLayout.constructorLines s l.name)) = [] := by
    refine enumerators_eq_nil fun k hk => ?_
    obtain ⟨c, -, hk⟩ := List.mem_flatMap.1 hk
    rcases code_of_mem_constructorLines hk with ⟨_, hcode⟩ | ⟨_, hcode⟩ | hcode <;> simp [hcode]
  rw [EnumLayout.lines, happend, happend, happend, hstructs, hconstructors, EnumLayout.outerLines,
    enumerators_eq_nil (hstruct _ _), List.nil_append, List.append_nil, List.append_nil,
    EnumLayout.tagLines]
  split
  · rw [List.cons_append, ← List.singleton_append, happend, happend, enumerators_tagList]
    exact List.append_nil _
  · rfl

/-- The members of a struct type, which has at least one. -/
def structMembers (ms : List Code.Binder) : List Code.Binder :=
  if ms.isEmpty then [emptyMember] else ms

theorem structTypes_append_of_skip {ks : List Line}
    (h : ∀ k ∈ ks, ∀ name, k.code ≠ .enter (.structType name)) (ls : List Line) :
    structTypes (ks ++ ls) = structTypes ls := by
  induction ks with
  | nil => rfl
  | cons k ks ih =>
    rw [List.cons_append, structTypes]
    · exact ih fun k hk => h k (List.mem_cons_of_mem _ hk)
    · intro level name hk
      exact h k List.mem_cons_self name (by rw [hk])

theorem structTypes_structType_append (name : String) (members : List Code.Binder)
    (ls : List Line) :
    structTypes (structType name members ++ ls) =
      (name, structMembers members) :: structTypes ls := by
  have hmembers (ms : List Code.Binder) (ks : List Line) :
      declaredMembers (ms.map (fun m => ⟨1, .statement (.declare m)⟩) ++
        ⟨0, .leave (some name)⟩ :: ks) = ms := by
    induction ms with
    | nil => rfl
    | cons m ms ih => exact congrArg (m :: ·) ih
  have hskip : ∀ k ∈ (structMembers members).map (fun m => (⟨1, .statement (.declare m)⟩ : Line)) ++
      [⟨0, .leave (some name)⟩], ∀ x, k.code ≠ .enter (.structType x) := by
    simp [or_imp, forall_and]
  rw [structType, ← structMembers, List.cons_append, List.cons_append, structTypes,
    structTypes_append_of_skip hskip, List.append_assoc, List.singleton_append, hmembers]

theorem structTypes_lines (s : Settings) (l : EnumLayout) :
    structTypes (l.lines s) =
      l.cases.map (fun c => (c.structName, structMembers (c.fields.map s.binder))) ++
        [(l.name, structMembers (l.outerMembers s))] := by
  have hcases (cs : List CaseLayout) (ls : List Line) :
      structTypes (cs.flatMap (CaseLayout.structLines s) ++ ls) =
        cs.map (fun c => (c.structName, structMembers (c.fields.map s.binder))) ++
          structTypes ls := by
    induction cs with
    | nil => rfl
    | cons c cs ih =>
      rw [List.flatMap_cons, List.append_assoc, CaseLayout.structLines,
        structTypes_structType_append, ih, List.map_cons, List.cons_append]
  have htags : ∀ k ∈ l.tagLines s, ∀ x, k.code ≠ .enter (.structType x) := by
    intro k hk
    rcases code_of_mem_tagLines hk with hcode | ⟨_, _, hcode⟩ | hcode <;> simp [hcode]
  have hconstructors : ∀ k ∈ l.cases.flatMap (CaseLayout.constructorLines s l.name),
      ∀ x, k.code ≠ .enter (.structType x) := by
    intro k hk
    obtain ⟨c, -, hk⟩ := List.mem_flatMap.1 hk
    rcases code_of_mem_constructorLines hk with ⟨_, hcode⟩ | ⟨_, hcode⟩ | hcode <;> simp [hcode]
  rw [EnumLayout.lines, List.append_assoc, List.append_assoc, hcases,
    structTypes_append_of_skip htags, EnumLayout.outerLines, structTypes_structType_append,
    ← List.append_nil (l.cases.flatMap (CaseLayout.constructorLines s l.name)),
    structTypes_append_of_skip hconstructors]
  rfl

theorem filter_key_eq_singleton {α : Type} {f : α → String} {as : List α} (h : (as.map f).Nodup)
    {a : α} (ha : a ∈ as) : as.filter (f · == f a) = [a] := by
  induction as with
  | nil => simp at ha
  | cons b as ih =>
    obtain ⟨hb, has⟩ := List.nodup_cons.1 h
    by_cases hab : f b = f a
    · have hnot : a ∉ as := fun ha' => hb (hab ▸ List.mem_map_of_mem ha')
      obtain rfl : a = b := (List.mem_cons.1 ha).resolve_right hnot
      rw [List.filter_cons_of_pos (by simp), List.filter_eq_nil_iff.2 fun c hc => ?_]
      exact fun hkey => hb (List.mem_map.2 ⟨c, hc, by simpa using hkey⟩)
    · rw [List.filter_cons_of_neg (by simpa using hab)]
      exact ih has ((List.mem_cons.1 ha).resolve_left fun heq => hab (by rw [heq]))

/-- Where the struct types are distinct and the members of one are, that one declares its members
once. -/
theorem declares_of_mem {ls : List Line} {type : String} {members : List Code.Binder}
    {b : Code.Binder} (htypes : ((structTypes ls).map Prod.fst).Nodup)
    (htype : (type, members) ∈ structTypes ls) (hmembers : (members.map Code.Binder.name).Nodup)
    (hb : b ∈ members) : Declares ls type b :=
  ⟨members, filter_key_eq_singleton htypes htype, filter_key_eq_singleton hmembers hb⟩

end SumLang
