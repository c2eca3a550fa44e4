import Mathlib.Data.List.Nodup
import ThemeSheet.Proofs.LowerCase
import ThemeSheet.Stylesheet

namespace ThemeSheet.PropertyName

open Text

/-! The property name of a key keeps the words of the key and nothing else: whether a word followed
a hyphen or began with a capital is lost. -/

/-- What lies between two hyphens, divided before each capital but a first one. -/
def divided : List Char → List (List Char)
  | c :: d :: rest =>
    if d.isUpper then [c] :: divided (d :: rest) else (divided (d :: rest)).modifyHead (c :: ·)
  | part => [part]

/-- The words that a key is made of. -/
def words (key : List Char) : List (List Char) :=
  (key.splitOn '-').flatMap divided

theorem divided_ne_nil (part : List Char) : divided part ≠ [] := by
  fun_induction divided part with
  | case1 => simp
  | case2 c d rest capital ih => simpa using ih
  | case3 => simp

theorem flatten_divided (part : List Char) : (divided part).flatten = part := by
  fun_induction divided part with
  | case1 c d rest capital ih => simpa using ih
  | case2 c d rest capital ih =>
    obtain ⟨word, more, eq⟩ := List.exists_cons_of_ne_nil (divided_ne_nil (d :: rest))
    rw [eq] at ih ⊢
    simpa using ih
  | case3 => simp

theorem words_ne_nil (key : List Char) : words key ≠ [] := by
  intro none
  obtain ⟨part, more, eq⟩ := List.exists_cons_of_ne_nil (List.splitOn_ne_nil '-' key)
  have := List.flatMap_eq_nil_iff.mp none part (by simp [eq])
  exact divided_ne_nil part this

/-! Where hyphens are put. -/

theorem hyphenate_cons (before : Option Char) (c : Char) (rest : List Char) :
    hyphenate before (c :: rest) =
      if c.isUpper && before.any (· != '-') then '-' :: c :: hyphenate (some c) rest
      else c :: hyphenate (some c) rest := rfl

theorem hyphenate_first (c : Char) (rest : List Char) :
    hyphenate none (c :: rest) = c :: hyphenate (some c) rest := by
  simp [hyphenate_cons]

theorem hyphenate_after_hyphen (text : List Char) :
    hyphenate (some '-') text = hyphenate none text := by
  cases text with
  | nil => rfl
  | cons c rest => simp [hyphenate_cons]

theorem hyphenate_after {c d : Char} (plain : c ≠ '-') (rest : List Char) :
    hyphenate (some c) (d :: rest) =
      if d.isUpper then '-' :: hyphenate none (d :: rest) else hyphenate none (d :: rest) := by
  cases upper : d.isUpper <;> simp [hyphenate_cons, upper, plain]

theorem intercalate_modifyHead {c : Char} {parts : List (List Char)} (h : parts ≠ []) :
    ['-'].intercalate (parts.modifyHead (c :: ·)) = c :: ['-'].intercalate parts := by
  obtain ⟨part, more, rfl⟩ := List.exists_cons_of_ne_nil h
  cases more <;> simp [List.intercalate_cons_cons]

theorem hyphenate_part {part : List Char} (plain : '-' ∉ part) :
    hyphenate none part = ['-'].intercalate (divided part) := by
  fun_induction divided part with
  | case1 c d rest capital ih =>
    have here : c ≠ '-' := fun same => plain (by simp [same])
    rw [List.intercalate_cons_of_ne_nil (divided_ne_nil _),
      ← ih (List.not_mem_of_not_mem_cons plain)]
    simp [hyphenate_first c, hyphenate_after here, capital]
  | case2 c d rest capital ih =>
    have here : c ≠ '-' := fun same => plain (by simp [same])
    rw [intercalate_modifyHead (divided_ne_nil _), ← ih (List.not_mem_of_not_mem_cons plain)]
    simp [hyphenate_first c, hyphenate_after here, capital]
  | case3 part short =>
    match part, short with
    | [], _ => rfl
    | [c], _ => exact hyphenate_first c []
    | c :: d :: rest, short => exact absurd rfl (short c d rest)

theorem hyphenate_append_hyphen (before : Option Char) (text rest : List Char) :
    hyphenate before (text ++ '-' :: rest) =
      hyphenate before text ++ '-' :: hyphenate none rest := by
  induction text generalizing before with
  | nil =>
    rw [List.nil_append, hyphenate_cons, if_neg (by simp), hyphenate_after_hyphen]
    rfl
  | cons c text ih =>
    rw [List.cons_append, hyphenate_cons, hyphenate_cons, ih]
    split <;> rfl

theorem intercalate_append {left right : List (List Char)} (hl : left ≠ []) (hr : right ≠ []) :
    ['-'].intercalate (left ++ right) =
      ['-'].intercalate left ++ '-' :: ['-'].intercalate right := by
  induction left with
  | nil => exact absurd rfl hl
  | cons part left ih =>
    cases left with
    | nil => simp [List.intercalate_cons_of_ne_nil hr]
    | cons next left =>
      rw [List.cons_append, List.cons_append, List.intercalate_cons_cons, ← List.cons_append,
        ih (by simp), List.intercalate_cons_cons]
      simp

theorem hyphenate_intercalate {parts : List (List Char)} (some : parts ≠ [])
    (plain : ∀ part ∈ parts, '-' ∉ part) :
    hyphenate none (['-'].intercalate parts) = ['-'].intercalate (parts.flatMap divided) := by
  induction parts with
  | nil => exact absurd rfl some
  | cons part more ih =>
    simp only [List.mem_cons, forall_eq_or_imp] at plain
    cases more with
    | nil => simpa using hyphenate_part plain.1
    | cons next more =>
      have rest : (next :: more).flatMap divided ≠ [] := by
        simp [divided_ne_nil]
      rw [List.flatMap_cons, intercalate_append (divided_ne_nil part) rest, ← ih (by simp) plain.2,
        ← hyphenate_part plain.1, ← hyphenate_append_hyphen, List.intercalate_cons_cons,
        List.append_assoc, List.singleton_append]

theorem hyphen_not_mem_of_mem_splitOn {key part : List Char} (h : part ∈ key.splitOn '-') :
    '-' ∉ part := by
  rw [List.splitOn_eq_splitOnP] at h
  induction key generalizing part with
  | nil => simp_all
  | cons c key ih =>
    rw [List.splitOnP_cons_eq_if_modifyHead] at h
    split at h
    · rcases List.mem_cons.mp h with rfl | h
      · simp
      · exact ih h
    · next other =>
      obtain ⟨first, more, eq⟩ := List.exists_cons_of_ne_nil (List.splitOnP_ne_nil (· == '-') key)
      rw [eq] at h ih
      rcases List.mem_cons.mp h with rfl | h
      · simp only [List.mem_cons, not_or]
        exact ⟨fun same => other (by simp [← same]), ih (List.mem_cons_self ..)⟩
      · exact ih (List.mem_cons_of_mem _ h)

theorem hyphenate_eq (key : List Char) :
    hyphenate none key = ['-'].intercalate (words key) := by
  have joined := hyphenate_intercalate (List.splitOn_ne_nil '-' key)
    (fun _ => hyphen_not_mem_of_mem_splitOn)
  rwa [List.intercalate_splitOn] at joined

theorem hyphen_not_mem_word {key word : List Char} (h : word ∈ words key) : '-' ∉ word := by
  obtain ⟨part, mem, within⟩ := List.mem_flatMap.mp h
  intro hyphen
  have := List.mem_flatten_of_mem within hyphen
  rw [flatten_divided] at this
  exact hyphen_not_mem_of_mem_splitOn mem this

/-! What a property name keeps. -/

theorem lower_intercalate (parts : List (List Char)) :
    lower (['-'].intercalate parts) = ['-'].intercalate (parts.map lower) := by
  induction parts with
  | nil => rfl
  | cons part more ih =>
    cases more with
    | nil => simp
    | cons next more =>
      rw [List.intercalate_cons_cons, List.append_assoc, List.singleton_append,
        lower_append_hyphen, ih]
      simp [List.intercalate_cons_cons]

/-- The words of a key as its property name shows them. -/
def lowerWords (key : String) : List (List Char) :=
  (words key.toList).map lower

theorem kebab_eq (key : String) : kebab key.toList = ['-'].intercalate (lowerWords key) := by
  rw [kebab, hyphenate_eq, lower_intercalate, lowerWords]

theorem splitOn_kebab (key : String) : (kebab key.toList).splitOn '-' = lowerWords key := by
  rw [kebab_eq]
  apply List.splitOn_intercalate
  · intro word mem hyphen
    obtain ⟨original, from_key, rfl⟩ := List.mem_map.mp mem
    exact hyphen_not_mem_word from_key ((mem_lowerAfter_iff (by decide) original).mp hyphen)
  · simp [lowerWords, words_ne_nil]

theorem kebab_inj {a b : String} : kebab a.toList = kebab b.toList ↔ lowerWords a = lowerWords b :=
  ⟨fun same => by rw [← splitOn_kebab, ← splitOn_kebab, same],
    fun same => by rw [kebab_eq, kebab_eq, same]⟩

/-- Two keys have one property name exactly if they consist of the same words. -/
theorem ofKey_inj {a b space : String} :
    ofKey a space = ofKey b space ↔ lowerWords a = lowerWords b := by
  rw [← kebab_inj]
  unfold ofKey kebabCase
  split <;> simp [String.ofList_inj]

example : lowerWords "theFooBar-Baz" = ["the", "foo", "bar", "baz"].map String.toList := rfl

/-! Keys in camel case. -/

structure CamelCase (key : String) : Prop where
  ascii : ∀ c ∈ key.toList, c.toNat < 128
  no_hyphen : '-' ∉ key.toList
  begins : key.toList.head?.all (!·.isUpper) = true

instance (key : String) : Decidable (CamelCase key) :=
  decidable_of_iff (key.toList.all (·.toNat < 128) = true ∧ '-' ∉ key.toList ∧
      key.toList.head?.all (!·.isUpper) = true)
    ⟨fun ⟨ascii, no_hyphen, begins⟩ => ⟨by simpa using ascii, no_hyphen, begins⟩,
      fun h => ⟨by simpa using h.ascii, h.no_hyphen, h.begins⟩⟩

/-- Words in lower case put together again, each but the first with a capital. -/
def capitals (words : List (List Char)) : List Char :=
  (words.map (·.modifyHead Char.toUpper)).flatten

def camel : List (List Char) → List Char
  | [] => []
  | first :: rest => first ++ capitals rest

theorem toUpper_toLower {c : Char} (h : c.isUpper = true) (small : c.toNat < 128) :
    c.toLower.toUpper = c := by
  have := of_ascii (fun c => !c.isUpper || c.toLower.toUpper == c) small (by decide)
  simpa [h] using this

theorem toLower_of_not_isUpper {c : Char} (h : c.isUpper = false) (small : c.toNat < 128) :
    c.toLower = c := by
  have := of_ascii (fun c => c.isUpper || c.toLower == c) small (by decide)
  simpa [h] using this

/-- After the first character, capitals are where the words begin. -/
theorem divided_cons (c : Char) {rest : List Char} (ascii : ∀ d ∈ rest, d.toNat < 128) :
    ∃ word more, divided (c :: rest) = (c :: word) :: more ∧
      word.map Char.toLower ++ capitals (more.map (·.map Char.toLower)) = rest := by
  induction rest generalizing c with
  | nil => exact ⟨[], [], rfl, rfl⟩
  | cons d rest ih =>
    simp only [List.mem_cons, forall_eq_or_imp] at ascii
    obtain ⟨word, more, eq, found⟩ := ih d ascii.2
    rw [divided, eq]
    cases upper : d.isUpper with
    | true =>
      refine ⟨[], (d :: word) :: more, rfl, ?_⟩
      have same := toUpper_toLower upper ascii.1
      simpa [capitals, same] using found
    | false =>
      refine ⟨d :: word, more, rfl, ?_⟩
      have same := toLower_of_not_isUpper upper ascii.1
      simpa [same] using found

theorem words_of_no_hyphen {key : List Char} (h : '-' ∉ key) : words key = divided key := by
  have one : key.splitOn '-' = [key] := by
    have part : ∀ word ∈ [key], '-' ∉ word := by simpa using h
    have joined := List.splitOn_intercalate '-' part (by simp)
    rwa [List.intercalate_singleton] at joined
  rw [words, one, List.flatMap_singleton]

theorem camel_lowerWords {key : String} (h : CamelCase key) :
    camel (lowerWords key) = key.toList := by
  have plain : lowerWords key = (divided key.toList).map (·.map Char.toLower) := by
    rw [lowerWords, words_of_no_hyphen h.no_hyphen]
    refine List.map_congr_left fun word mem => lower_of_ascii fun c within => ?_
    have := List.mem_flatten_of_mem mem within
    rw [flatten_divided] at this
    exact h.ascii c this
  rw [plain]
  cases key_eq : key.toList with
  | nil => rfl
  | cons c rest =>
    have ascii := h.ascii
    simp only [key_eq, List.mem_cons, forall_eq_or_imp] at ascii
    obtain ⟨word, more, eq, found⟩ := divided_cons c ascii.2
    have begins : c.isUpper = false := by simpa [key_eq] using h.begins
    have same := toLower_of_not_isUpper begins ascii.1
    rw [eq]
    simpa [camel, same] using found

theorem eq_of_lowerWords_eq {a b : String} (ha : CamelCase a) (hb : CamelCase b)
    (same : lowerWords a = lowerWords b) : a = b := by
  rw [← String.toList_inj, ← camel_lowerWords ha, ← camel_lowerWords hb, same]

end ThemeSheet.PropertyName

namespace ThemeSheet.Stylesheet

open Literal (Mapping)
open PropertyName

theorem map_name_properties {space : String} {classifier : Classifier} {mapping : Mapping}
    {ps : List Property} (h : properties space classifier mapping = .ok ps) :
    ps.map Property.name = mapping.map fun entry => ofKey entry.1 space := by
  induction mapping generalizing ps with
  | nil => cases h; rfl
  | cons entry rest ih =>
    obtain ⟨key, value⟩ := entry
    rw [properties] at h
    split at h
    · cases h
    · cases tail : properties space classifier rest with
      | error => rw [tail] at h; cases h
      | ok qs =>
        rw [tail] at h
        cases h
        simp [ih tail]

/-- Each key has a property of its own exactly if no two keys consist of the same words. Keys in
camel case never do. -/
theorem nodup_names_iff {space : String} {classifier : Classifier} {mapping : Mapping}
    {ps : List Property} (h : properties space classifier mapping = .ok ps) :
    ((ps.map Property.name).Nodup ↔ (mapping.map fun entry => lowerWords entry.1).Nodup) ∧
      ((mapping.map Prod.fst).Nodup → (∀ entry ∈ mapping, CamelCase entry.1) →
        (ps.map Property.name).Nodup) := by
  have names : (ps.map Property.name).Nodup ↔
      (mapping.map fun entry => lowerWords entry.1).Nodup := by
    rw [map_name_properties h, List.Nodup, List.Nodup, List.pairwise_map, List.pairwise_map]
    exact List.Pairwise.iff fun _ _ => not_congr ofKey_inj
  refine ⟨names, fun distinct camel => names.mpr ?_⟩
  rw [List.Nodup, List.pairwise_map] at distinct ⊢
  refine distinct.imp_of_mem fun {a b} ha hb apart same => apart ?_
  exact eq_of_lowerWords_eq (camel a ha) (camel b hb) same

theorem nodup_names_two_keys :
    properties "app" guessClassifier [("rowGap", "1px"), ("row", "red")] =
      .ok [⟨"--app-row-gap", "1px", "<length>"⟩, ⟨"--app-row", "red", "<color>"⟩] ∧
    ["--app-row-gap", "--app-row"].Nodup := by
  have built : properties "app" guessClassifier [("rowGap", "1px"), ("row", "red")] =
      .ok [⟨"--app-row-gap", "1px", "<length>"⟩, ⟨"--app-row", "red", "<color>"⟩] := rfl
  have camel : ∀ entry ∈ [("rowGap", "1px"), ("row", "red")], CamelCase entry.1 := by
    simp only [List.mem_cons, List.not_mem_nil, or_false, forall_eq_or_imp, forall_eq]
    decide
  exact ⟨built, (nodup_names_iff built).2 (by decide) camel⟩

/-- A capital and a hyphen lead to one name. -/
theorem not_nodup_names_of_distinct_keys :
    ¬ ∀ (mapping : Mapping) (space : String) (classifier : Classifier) (ps : List Property),
      (mapping.map Prod.fst).Nodup → properties space classifier mapping = .ok ps →
        (ps.map Property.name).Nodup := by
  intro always
  have built : properties "" guessClassifier [("aB", "1"), ("a-b", "2")] =
      .ok [⟨"--a-b", "1", "<integer>"⟩, ⟨"--a-b", "2", "<integer>"⟩] := rfl
  exact absurd (always _ _ _ _ (by decide) built) (by decide)

end ThemeSheet.Stylesheet
