import SumLang.SourceFile

/-! Where paths lead, and what a written file changes. The text of a path reads as that path again,
so a path is followed the same however often it is written out; a file that is put at a place leaves
every other place as it was. -/
namespace SumLang

theorem takeWhile_append_cons {p : Char → Bool} {w : List Char} {d : Char}
    (hw : ∀ c ∈ w, p c = true) (hd : p d = false) (rest : List Char) :
    (w ++ d :: rest).takeWhile p = w ∧ (w ++ d :: rest).dropWhile p = d :: rest := by
  rw [List.takeWhile_append_of_pos hw, List.dropWhile_append_of_pos hw]
  simp [hd]

/-- A text is cut at the first occurrence of a character. -/
theorem takeWhile_ne_append {sep : Char} {s : List Char} (h : sep ∉ s) (rest : List Char) :
    (s ++ sep :: rest).takeWhile (· != sep) = s ∧
      (s ++ sep :: rest).dropWhile (· != sep) = sep :: rest := by
  refine takeWhile_append_cons (fun c hc => ?_) (by simp) rest
  have hne : c ≠ sep := fun heq => h (heq ▸ hc)
  simpa using hne

namespace Path

theorem splitAt_of_not_mem {sep : Char} {s : List Char} (h : sep ∉ s) : splitAt sep s = [s] := by
  induction s with
  | nil => rfl
  | cons c s ih =>
    rw [List.mem_cons, not_or] at h
    rw [splitAt, if_neg (Ne.symm h.1), ih h.2]

theorem splitAt_append {sep : Char} {s : List Char} (h : sep ∉ s) (rest : List Char) :
    splitAt sep (s ++ sep :: rest) = s :: splitAt sep rest := by
  induction s with
  | nil => rw [List.nil_append, splitAt, if_pos rfl]
  | cons c s ih =>
    rw [List.mem_cons, not_or] at h
    rw [List.cons_append, splitAt, if_neg (Ne.symm h.1), ih h.2]

theorem not_mem_of_mem_splitAt {sep : Char} {s part : List Char} (h : part ∈ splitAt sep s) :
    sep ∉ part := by
  induction s generalizing part with
  | nil =>
    rw [splitAt, List.mem_singleton] at h
    simp [h]
  | cons c s ih =>
    rw [splitAt] at h
    split at h
    case isTrue =>
      rcases List.mem_cons.1 h with rfl | h
      · simp
      · exact ih h
    case isFalse hc =>
      split at h
      case h_1 =>
        rw [List.mem_singleton.1 h, List.mem_singleton]
        exact Ne.symm hc
      case h_2 first parts hs =>
        rcases List.mem_cons.1 h with rfl | h
        · have hfirst : sep ∉ first := ih (by simp [hs])
          simp [Ne.symm hc, hfirst]
        · exact ih (by simp [hs, h])

theorem splitAt_intercalate {sep : Char} {part : List Char} {parts : List (List Char)}
    (h : ∀ p ∈ part :: parts, sep ∉ p) :
    splitAt sep ([sep].intercalate (part :: parts)) = part :: parts := by
  induction parts generalizing part with
  | nil =>
    rw [List.intercalate_singleton]
    exact splitAt_of_not_mem (h part (by simp))
  | cons next parts ih =>
    have hpart : sep ∉ part := h part (by simp)
    rw [List.intercalate_cons_cons, List.append_assoc, List.singleton_append,
      splitAt_append hpart, ih fun p hp => h p (List.mem_cons_of_mem _ hp)]

/-- A part that is kept of a path. -/
structure IsName (part : String) : Prop where
  nonempty : part ≠ ""
  proper : part ≠ "."
  undivided : '/' ∉ part.toList

/-- The paths that texts are read as. -/
structure Normal (p : Path) : Prop where
  root : p.root = "" ∨ p.root = "/" ∨ p.root = "//"
  names : ∀ part ∈ p.parts, IsName part

theorem rootOf_cases (s : String) : rootOf s = "" ∨ rootOf s = "/" ∨ rootOf s = "//" := by
  rw [rootOf]
  split <;> simp

theorem normal_ofString (s : String) : (ofString s).Normal where
  root := rootOf_cases s
  names := by
    intro part hpart
    rw [ofString, List.mem_filter, pieces, List.mem_map] at hpart
    obtain ⟨⟨cs, hcs, rfl⟩, hkept⟩ := hpart
    simp only [Bool.and_eq_true, bne_iff_ne] at hkept
    refine ⟨hkept.1, hkept.2, ?_⟩
    rw [String.toList_ofList]
    exact not_mem_of_mem_splitAt hcs

theorem pieces_slash_append (s : String) : pieces ("/" ++ s) = "" :: pieces s := by
  rw [pieces, String.toList_append]
  rfl

/-- The pieces of a text of names are the names, but for a piece that is left out. -/
theorem exists_pieces_intercalate {parts : List String} (h : ∀ part ∈ parts, IsName part) :
    ∃ skipped, (∀ piece ∈ skipped, piece = "" ∨ piece = ".") ∧
      pieces ("/".intercalate parts) = skipped ++ parts := by
  cases parts with
  | nil => exact ⟨[""], by simp, rfl⟩
  | cons part parts =>
    refine ⟨[], by simp, ?_⟩
    have hslash : ∀ p ∈ part.toList :: parts.map String.toList, '/' ∉ p := by
      intro p hp
      rw [← List.map_cons, List.mem_map] at hp
      obtain ⟨name, hname, rfl⟩ := hp
      exact (h name hname).undivided
    have hsplit := splitAt_intercalate hslash
    rw [pieces, String.toList_intercalate, List.map_cons]
    change (splitAt '/' (['/'].intercalate _)).map _ = _
    simp [hsplit, Function.comp_def]

theorem exists_pieces_toText {p : Path} (h : p.Normal) :
    ∃ skipped, (∀ piece ∈ skipped, piece = "" ∨ piece = ".") ∧
      pieces p.toText = skipped ++ p.parts := by
  obtain ⟨skipped, hskipped, hpieces⟩ := exists_pieces_intercalate h.names
  rw [toText]
  split
  case isTrue hempty =>
    obtain ⟨-, hparts⟩ : p.root = "" ∧ p.parts = [] := by simpa using hempty
    refine ⟨["."], by simp, ?_⟩
    rw [hparts]
    rfl
  case isFalse =>
    rcases h.root with hroot | hroot | hroot
    · refine ⟨skipped, hskipped, ?_⟩
      rw [hroot, String.empty_append, hpieces]
    · refine ⟨"" :: skipped, by simpa using hskipped, ?_⟩
      rw [hroot, pieces_slash_append, hpieces, List.cons_append]
    · refine ⟨"" :: "" :: skipped, by simpa using hskipped, ?_⟩
      have hslashes : ("//" : String) = "/" ++ "/" := rfl
      rw [hroot, hslashes, String.append_assoc, pieces_slash_append, pieces_slash_append, hpieces]
      rfl

/-- A text of names does not start with a slash. -/
theorem head?_intercalate_ne {parts : List String} (h : ∀ part ∈ parts, IsName part) :
    ("/".intercalate parts).toList.head? ≠ some '/' := by
  rw [String.toList_intercalate]
  cases parts with
  | nil => simp
  | cons part parts =>
    have hname := h part (by simp)
    obtain ⟨c, cs, hcs⟩ : ∃ c cs, part.toList = c :: cs :=
      List.exists_cons_of_ne_nil (by simpa using hname.nonempty)
    have hc : c ≠ '/' := by
      have := hname.undivided
      rw [hcs] at this
      rintro rfl
      simp at this
    cases parts <;> simp [hcs, hc]

theorem rootOf_append {root s : String} (hroot : root = "" ∨ root = "/" ∨ root = "//")
    (hs : s.toList.head? ≠ some '/') : rootOf (root ++ s) = root := by
  rw [rootOf, String.toList_append]
  cases hcs : s.toList with
  | nil => rcases hroot with rfl | rfl | rfl <;> rfl
  | cons c cs =>
    have hc : c ≠ '/' := by simpa [hcs] using hs
    rcases hroot with rfl | rfl | rfl <;> simp [hc]

theorem rootOf_toText {p : Path} (h : p.Normal) : rootOf p.toText = p.root := by
  rw [toText]
  split
  case isTrue hempty =>
    obtain ⟨hroot, -⟩ : p.root = "" ∧ p.parts = [] := by simpa using hempty
    rw [hroot]
    rfl
  case isFalse => exact rootOf_append h.root (head?_intercalate_ne h.names)

/-- The text of a path reads as the path. -/
theorem ofString_toText {p : Path} (h : p.Normal) : ofString p.toText = p := by
  obtain ⟨skipped, hskipped, hpieces⟩ := exists_pieces_toText h
  have hdropped : skipped.filter (fun piece => piece != "" && piece != ".") = [] := by
    rw [List.filter_eq_nil_iff]
    intro piece hpiece
    rcases hskipped piece hpiece with rfl | rfl <;> simp
  have hkept : p.parts.filter (fun piece => piece != "" && piece != ".") = p.parts := by
    rw [List.filter_eq_self]
    intro part hpart
    have hname := h.names part hpart
    simp [hname.nonempty, hname.proper]
  rw [ofString, rootOf_toText h, hpieces, List.filter_append, hdropped, hkept, List.nil_append]

theorem toText_ne_empty {p : Path} (h : p.Normal) : p.toText ≠ "" := by
  intro hempty
  -- The empty text reads as the path without parts, and that one is written as a dot.
  have hp := ofString_toText h
  rw [hempty] at hp
  rw [← hp] at hempty
  exact absurd hempty (by decide)

/-- A file name that is given an extension stays a file name. -/
theorem isName_stem_append {name extension : String} (hname : IsName name)
    (hslash : '/' ∉ extension.toList) (hlength : 2 ≤ extension.length) :
    IsName (stem name ++ extension) := by
  have hstem : ∀ c ∈ (stem name).toList, c ∈ name.toList := by
    intro c hc
    rw [stem] at hc
    split at hc
    · exact hc
    · rw [String.toList_ofList] at hc
      exact List.mem_of_mem_take hc
  have hlong : 2 ≤ (stem name ++ extension).length := by
    rw [String.length_append]
    omega
  refine ⟨?_, ?_, ?_⟩
  · intro h
    rw [h] at hlong
    exact absurd hlong (by decide)
  · intro h
    rw [h] at hlong
    exact absurd hlong (by decide)
  · rw [String.toList_append, List.mem_append, not_or]
    exact ⟨fun h => hname.undivided (hstem _ h), hslash⟩

theorem normal_withExtension {p : Path} (h : p.Normal) {extension : String}
    (hslash : '/' ∉ extension.toList) (hlength : 2 ≤ extension.length) :
    (p.withExtension extension).Normal := by
  rw [withExtension]
  split
  case h_1 name hlast =>
    refine ⟨h.root, fun part hpart => ?_⟩
    rcases List.mem_append.1 hpart with hpart | hpart
    · exact h.names part (List.dropLast_subset p.parts hpart)
    · rw [List.mem_singleton.1 hpart]
      exact isName_stem_append (h.names name (List.mem_of_getLast? hlast)) hslash hlength
  case h_2 => exact h

end Path

inductive Opening where
  | opened (place : Place)
  | notFound
  | denied
  /-- A directory, a file on the way, or anything else that the system answers. -/
  | unforeseen
deriving DecidableEq, Repr

namespace Disk

variable {d : Disk}

/-- Where a path leads to a file, or to a place for one, the system decides. -/
def opening (d : Disk) (refusals : Refusals) (path : String) : Opening :=
  match d.find path with
  | .file place _ | .vacant place =>
    match refusals.lookup place with
    | none => .opened place
    | some .denied => .denied
    | some (.other _) => .unforeseen
  | .missing => .notFound
  | .directory _ | .blocked => .unforeseen

theorem follow_append_of_skipped {place : Place} {skipped : List String}
    (h : ∀ piece ∈ skipped, piece = "" ∨ piece = ".") (parts : List String) :
    d.follow place (skipped ++ parts) = d.follow place parts := by
  induction skipped with
  | nil => rfl
  | cons piece skipped ih =>
    have hpiece : (piece = "" || piece = ".") = true := by simpa using h piece (by simp)
    rw [List.cons_append, follow, if_pos hpiece]
    exact ih fun p hp => h p (List.mem_cons_of_mem _ hp)

/-- A file is also found without the pieces that are left out of a path. -/
theorem follow_filter_of_file {place target : Place} {pieces : List String} {bytes : List UInt8}
    (h : d.follow place pieces = .file target bytes) :
    d.follow place (pieces.filter fun p => p != "" && p != ".") = .file target bytes := by
  have kept {piece : String} (rest : List String)
      (hskip : ¬ (decide (piece = "") || decide (piece = ".")) = true) :
      (piece :: rest).filter (fun p => p != "" && p != ".") =
        piece :: rest.filter (fun p => p != "" && p != ".") := by
    apply List.filter_cons_of_pos
    simpa using hskip
  fun_induction follow d place pieces with
  | case1 => cases h
  | case2 place piece rest hskip ih =>
    have hdropped : (piece :: rest).filter (fun p => p != "" && p != ".") =
        rest.filter (fun p => p != "" && p != ".") := by
      apply List.filter_cons_of_neg
      simpa [Decidable.imp_iff_not_or] using hskip
    rw [hdropped]
    exact ih h
  | case3 place rest hskip ih =>
    rw [kept rest hskip, follow, if_neg hskip, if_pos rfl]
    exact ih h
  | case4 place piece rest hskip hup next hentry ih =>
    rw [kept rest hskip, follow, if_neg hskip, if_neg hup]
    dsimp only
    rw [show d.entry? (place ++ [piece]) = _ from hentry]
    exact ih h
  | case5 place piece rest hskip hup next bytes hentry hlast =>
    -- Behind a file not even a piece that is left out may follow: it would have blocked the way.
    have hrest : rest = [] := List.isEmpty_iff.1 hlast
    rw [kept rest hskip, follow, if_neg hskip, if_neg hup, hrest]
    dsimp only
    rw [show d.entry? (place ++ [piece]) = _ from hentry]
    exact h
  | case6 => cases h
  | case7 => cases h
  | case8 => cases h

theorem find_toText {p : Path} (h : p.Normal) :
    d.find p.toText = d.follow (if p.root = "" then [] else ["/"]) p.parts := by
  obtain ⟨skipped, hskipped, hpieces⟩ := Path.exists_pieces_toText h
  rw [find, if_neg (Path.toText_ne_empty h), Path.rootOf_toText h, hpieces,
    follow_append_of_skipped hskipped]

theorem find_ofString_of_file {path : String} {place : Place} {bytes : List UInt8}
    (h : d.find path = .file place bytes) :
    d.find (Path.ofString path).toText = .file place bytes := by
  rw [find] at h
  split at h
  case isTrue => cases h
  case isFalse =>
    rw [find_toText (Path.normal_ofString path)]
    exact follow_filter_of_file h

/-- What is found is what stands there. -/
theorem entry?_of_follow {start place : Place} {pieces : List String} :
    (∀ bytes, d.follow start pieces = .file place bytes → d.entry? place = some (.file bytes)) ∧
      (d.follow start pieces = .vacant place → d.entry? place = none) := by
  fun_induction follow d start pieces with
  | case1 => simp
  | case2 _ _ _ _ ih => exact ih
  | case3 _ _ _ ih => exact ih
  | case4 _ _ _ _ _ _ _ ih => exact ih
  | case5 start piece rest hskip hup next bytes hentry hlast =>
    refine ⟨fun bytes' h => ?_, fun h => ?_⟩
    · obtain ⟨hplace, hbytes⟩ := Found.file.inj h
      rw [← hplace, ← hbytes, hentry]
    · cases h
  | case6 => simp
  | case7 start piece rest hskip hup next hentry hlast =>
    refine ⟨fun bytes' h => ?_, fun h => ?_⟩
    · cases h
    · rw [← Found.vacant.inj h, hentry]
  | case8 => simp

theorem entry?_of_find_file {path : String} {place : Place} {bytes : List UInt8}
    (h : d.find path = .file place bytes) : d.entry? place = some (.file bytes) := by
  rw [find] at h
  split at h
  · cases h
  · exact entry?_of_follow.1 bytes h

theorem entry?_of_find_vacant {path : String} {place : Place} (h : d.find path = .vacant place) :
    d.entry? place = none := by
  rw [find] at h
  split at h
  · cases h
  · exact entry?_of_follow.2 h

theorem lookup_cons_entry (p place : Place) (e : Entry) (entries : List (Place × Entry)) :
    ((p, e) :: entries).lookup place = if place = p then some e else entries.lookup place := by
  by_cases h : place = p
  · simp [h]
  · have hbeq : (place == p) = false := beq_eq_false_iff_ne.2 h
    rw [List.lookup_cons, hbeq, if_neg h]

theorem lookup_map_replace (entries : List (Place × Entry)) (place other : Place) (e : Entry) :
    (entries.map fun (p, old) => if p = place then (p, e) else (p, old)).lookup other =
      if other = place then (entries.lookup place).map fun _ => e else entries.lookup other := by
  induction entries with
  | nil => simp
  | cons entry entries ih =>
    obtain ⟨p, old⟩ := entry
    rw [List.map_cons, lookup_cons_entry p place]
    change ((if p = place then (p, e) else (p, old)) :: _).lookup other = _
    by_cases hp : p = place
    · rw [if_pos hp, lookup_cons_entry, lookup_cons_entry, ih]
      by_cases hother : other = place <;> simp [hp, hother]
    · rw [if_neg hp, lookup_cons_entry, lookup_cons_entry, ih]
      by_cases hother : other = place
      · simp [hother, Ne.symm hp]
      · simp [hother]

theorem lookup_put (d : Disk) (place other : Place) (e : Entry) :
    (d.put place e).entries.lookup other =
      if other = place then some e else d.entries.lookup other := by
  rw [put]
  split
  case isTrue hpresent =>
    obtain ⟨old, hold⟩ := Option.isSome_iff_exists.1 hpresent
    rw [lookup_map_replace, hold, Option.map_some]
  case isFalse habsent =>
    have hnone : d.entries.lookup place = none := Option.not_isSome_iff_eq_none.1 habsent
    rw [List.lookup_append, lookup_cons_entry]
    by_cases hother : other = place
    · simp [hother, hnone]
    · simp [hother]

/-- A place that can be put to holds what is put there, and every other place what it held. -/
theorem entry?_put {place : Place} (h : d.entry? place ≠ some .directory) (other : Place)
    (e : Entry) :
    entry? (d.put place e) other = if other = place then some e else d.entry? other := by
  rw [ entry?, entry?, lookup_put]
  by_cases hother : other = place
  · have habove : ¬ (place = ["/"] || place.all (· == "..")) = true := by
      intro habove
      rw [ entry?, if_pos habove] at h
      exact h rfl
    rw [hother, if_neg habove, if_pos rfl, if_pos rfl]
  · rw [if_neg hother, if_neg hother]

/-- An opened place can be put to. -/
theorem entry?_of_opening {refusals : Refusals} {path : String} {place : Place}
    (h : d.opening refusals path = .opened place) : d.entry? place ≠ some .directory := by
  have opened {found : Place}
      (hopen : (match refusals.lookup found with
        | none => Opening.opened found
        | some .denied => .denied
        | some (.other _) => .unforeseen) = .opened place) : found = place := by
    split at hopen <;> cases hopen
    rfl
  rw [opening] at h
  split at h
  case h_1 found bytes hfind =>
    rw [← opened h, entry?_of_find_file hfind]
    simp
  case h_2 found hfind =>
    rw [← opened h, entry?_of_find_vacant hfind]
    simp
  all_goals cases h

end Disk

end SumLang
