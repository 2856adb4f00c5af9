import SumLang.Proofs.EnumSection

/-! Registrations one after the other, some of them refused, and what holds of the registry that
they lead to. -/
namespace SumLang.Registry

/-- The registry after a registration. A definition that is refused leaves it as it was. -/
def attempt (r : Registry) (d : EnumDefinition) : Registry :=
  match r.register d with
  | .ok r' => r'
  | .error _ => r

/-- The registry that a sequence of registrations leads to. -/
def reached (r : Registry) (ds : List EnumDefinition) : Registry := ds.foldl attempt r

/-- The registrations of a sequence, each with its answer. -/
def answers (r : Registry) :
    List EnumDefinition → List (EnumDefinition × Except EnumFault EnumLayout)
  | [] => []
  | d :: ds => (d, r.layOut d) :: (r.attempt d).answers ds

/-- The registrations of a sequence that succeed, each with its answer. -/
def successes (r : Registry) (ds : List EnumDefinition) :
    List (EnumDefinition × Except EnumFault EnumLayout) :=
  (r.answers ds).filter (·.2.isOk)

variable {r : Registry} {d : EnumDefinition} {ds : List EnumDefinition}

@[simp] theorem reached_nil : r.reached [] = r := rfl

@[simp] theorem reached_cons : r.reached (d :: ds) = (r.attempt d).reached ds := rfl

theorem attempt_of_ok {l : EnumLayout} (h : r.layOut d = .ok l) : r.attempt d = r.insert l := by
  simp [attempt, register, h, Except.map]

theorem attempt_of_error {f : EnumFault} (h : r.layOut d = .error f) : r.attempt d = r := by
  simp [attempt, register, h, Except.map]

theorem successes_cons_of_ok {l : EnumLayout} (h : r.layOut d = .ok l) :
    r.successes (d :: ds) = (d, .ok l) :: (r.insert l).successes ds := by
  simp [successes, answers, attempt_of_ok h, h, Except.isOk, Except.toBool]

theorem successes_cons_of_error {f : EnumFault} (h : r.layOut d = .error f) :
    r.successes (d :: ds) = r.successes ds := by
  simp [successes, answers, attempt_of_error h, h, Except.isOk, Except.toBool]

/-- Without the registrations that fail, the others have the same answers and lead to the same
registry. -/
theorem answers_successes (r : Registry) (ds : List EnumDefinition) :
    r.answers ((r.successes ds).map Prod.fst) = r.successes ds ∧
      r.reached ((r.successes ds).map Prod.fst) = r.reached ds := by
  induction ds generalizing r with
  | nil => exact ⟨rfl, rfl⟩
  | cons d ds ih =>
    cases h : r.layOut d with
    | error f =>
      rw [successes_cons_of_error h, reached_cons, attempt_of_error h]
      exact ih r
    | ok l =>
      obtain ⟨hanswers, hreached⟩ := ih (r.insert l)
      rw [successes_cons_of_ok h, List.map_cons, reached_cons, reached_cons, attempt_of_ok h,
        answers, attempt_of_ok h, hanswers, hreached, h]
      exact ⟨rfl, rfl⟩

/-- A registration adds the layout of its definition, if that goes together with what is there. -/
theorem reached_ofLayouts {ls : List EnumLayout} (h : Compatible ls) (ds : List EnumDefinition) :
    (ofLayouts ls).reached ds = ofLayouts
        (ls ++ ((ofLayouts ls).successes ds).map fun c => c.1.layout) ∧
      Compatible (ls ++ ((ofLayouts ls).successes ds).map fun c => c.1.layout) := by
  induction ds generalizing ls with
  | nil => simpa [successes, answers] using h
  | cons d ds ih =>
    cases hd : (ofLayouts ls).layOut d with
    | error f =>
      rw [successes_cons_of_error hd, reached_cons, attempt_of_error hd]
      exact ih h
    | ok l =>
      obtain ⟨rfl, hls⟩ := (layOut_ofLayouts h).1 hd
      rw [successes_cons_of_ok hd, reached_cons, attempt_of_ok hd, insert_ofLayouts]
      simpa using ih hls

structure Sound (r : Registry) : Prop where
  /-- The record of generated names is complete, and holds nothing else. -/
  generated : r.generated = r.enums.flatMap EnumLayout.identifiers
  distinct : r.generated.Nodup
  /-- The members of an outer struct, its tag included. -/
  members : ∀ l ∈ r.enums, l.members.Nodup
  words : ∀ l ∈ r.enums, isReserved l.name = false ∧ ∀ c ∈ l.cases,
    isReserved c.member = false ∧ ∀ v ∈ c.fields, isReserved v.name = false
  /-- Enums whose names are words of the language share no name with what is generated, and their
  declarations put no name twice into file scope. -/
  fileScope : (∀ l ∈ r.enums, l.name.toList.head? ≠ some '_') →
    (r.enums.map EnumLayout.name ++ r.generated).Nodup ∧
      ∀ s, (SumLang.fileScope (r.enums.flatMap (EnumLayout.lines s))).Nodup

theorem sound_ofLayouts {ls : List EnumLayout} (h : Compatible ls) : (ofLayouts ls).Sound where
  generated := rfl
  distinct := h.identifiers
  members l hl := by
    have hwell := h.wellNamed l hl
    refine List.nodup_cons.2 ⟨fun htag => ?_, hwell.members⟩
    obtain ⟨c, hc, hmember⟩ := List.mem_map.1 htag
    exact hwell.tag c hc hmember
  words l hl := by
    have hwell := h.wellNamed l hl
    exact ⟨hwell.name, fun c hc => ⟨hwell.memberWords c hc, hwell.fieldWords c hc⟩⟩
  fileScope hls := ⟨h.nodup_names_append hls, h.nodup_fileScope hls⟩

/-- Whatever is registered and refused, the registry keeps its names apart, finds exactly the cases
of the definitions that were accepted, and is the one that these alone lead to. -/
theorem sound_reached (ds : List EnumDefinition) :
    (empty.reached ds).Sound ∧
      (∀ enum case k, (empty.reached ds).lookup enum case = .ok k ↔
        ∃ d ∈ (empty.successes ds).map Prod.fst, d.name = enum ∧
          ∃ c ∈ d.cases, c.name = case ∧ k = ⟨enum, case, c.values⟩) ∧
      empty.answers ((empty.successes ds).map Prod.fst) = empty.successes ds ∧
      empty.reached ((empty.successes ds).map Prod.fst) = empty.reached ds := by
  obtain ⟨hreached, hcompatible⟩ := reached_ofLayouts compatible_nil ds
  rw [List.nil_append] at hreached hcompatible
  change empty.reached ds = _ at hreached
  refine ⟨?_, fun enum case k => ?_, answers_successes empty ds⟩
  · rw [hreached]
    exact sound_ofLayouts hcompatible
  · rw [hreached, lookup_ofLayouts hcompatible]
    constructor
    · rintro ⟨l, hl, rfl, hk, rfl⟩
      obtain ⟨call, hcall, rfl⟩ := List.mem_map.1 hl
      obtain ⟨c, hc, rfl⟩ := List.mem_map.1 hk
      exact ⟨call.1, List.mem_map_of_mem hcall, rfl, c, hc, rfl, rfl⟩
    · rintro ⟨d, hd, rfl, c, hc, rfl, rfl⟩
      obtain ⟨call, hcall, rfl⟩ := List.mem_map.1 hd
      exact ⟨call.1.layout, List.mem_map_of_mem (f := fun c => c.1.layout) hcall, rfl,
        List.mem_map_of_mem hc, rfl⟩

/-- The second definition is refused, since its case `c` would generate the name of case `bC` of the
first; the third then finds the name `AB` free. -/
theorem sound_reached_refused :
    (empty.successes [⟨"A", [⟨"A", "bC", []⟩]⟩, ⟨"AB", [⟨"AB", "d", []⟩, ⟨"AB", "c", []⟩]⟩,
        ⟨"AB", [⟨"AB", "d", []⟩]⟩]).map Prod.fst =
      [⟨"A", [⟨"A", "bC", []⟩]⟩, ⟨"AB", [⟨"AB", "d", []⟩]⟩] ∧
    ∀ s, (SumLang.fileScope ((empty.reached [⟨"A", [⟨"A", "bC", []⟩]⟩,
      ⟨"AB", [⟨"AB", "d", []⟩, ⟨"AB", "c", []⟩]⟩, ⟨"AB", [⟨"AB", "d", []⟩]⟩]).enums.flatMap
        (EnumLayout.lines s))).Nodup :=
  ⟨rfl, ((sound_reached _).1.fileScope (by decide)).2⟩

end SumLang.Registry
