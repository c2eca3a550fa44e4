import Mathlib.Data.List.Induction
import ThemeSheet.Files.Tree

namespace ThemeSheet

/-- A node without the time at which a directory was last changed. -/
def Node.unstamped : Node → Node
  | .directory _ => .directory 0
  | node => node

namespace Files

/-- What a walk can tell apart at each place. -/
def seen (fs : Files) (parts : List String) : Option Node :=
  (fs.find? parts).map Node.unstamped

@[simp] theorem seen_nil (fs : Files) : fs.seen [] = some (.directory 0) := by
  simp [seen, find?, Node.unstamped]

theorem seen_eq_none {fs : Files} {parts : List String} :
    fs.seen parts = none ↔ fs.find? parts = none := by
  simp [seen]

theorem seen_eq_file {fs : Files} {parts : List String} {content : List UInt8} {executable : Bool}
    {stamp : Stamp} : fs.seen parts = some (.file content executable stamp) ↔
      fs.find? parts = some (.file content executable stamp) := by
  cases h : fs.find? parts with
  | none => simp [seen, h]
  | some node => cases node <;> simp [seen, h, Node.unstamped]

theorem seen_eq_directory {fs : Files} {parts : List String} :
    fs.seen parts = some (.directory 0) ↔
      ∃ stamp, fs.find? parts = some (.directory stamp) := by
  cases h : fs.find? parts with
  | none => simp [seen, h]
  | some node => cases node <;> simp [seen, h, Node.unstamped]

theorem eq_zero_of_seen {fs : Files} {parts : List String} {stamp : Stamp}
    (h : fs.seen parts = some (.directory stamp)) : stamp = 0 := by
  cases found : fs.find? parts with
  | none => simp [seen, found] at h
  | some node => cases node <;> simp_all [seen, Node.unstamped]

theorem seen_eq_link {fs : Files} {parts : List String} {target : Path} :
    fs.seen parts = some (.link target) ↔ fs.find? parts = some (.link target) := by
  cases h : fs.find? parts with
  | none => simp [seen, h]
  | some node => cases node <;> simp [seen, h, Node.unstamped]

/-! What the operations change of it. -/

theorem find?_filter (keeps : List String → Bool) (parts : List String)
    (entries : List (List String × Node)) :
    (entries.filter fun entry => keeps entry.1).find? (fun entry => entry.1 == parts) =
      if keeps parts then entries.find? (fun entry => entry.1 == parts) else none := by
  induction entries with
  | nil => simp
  | cons entry entries ih =>
    by_cases h : entry.1 = parts
    · subst h
      by_cases hk : keeps entry.1 = true
      · simp [hk]
      · simpa [hk] using ih
    · by_cases hk : keeps entry.1 = true
      · simp [hk, h, ih]
      · simp [hk, h, ih]

theorem find?_map {change : List String × Node → List String × Node}
    (key : ∀ entry, (change entry).1 = entry.1)
    (node : ∀ entry, (change entry).2.unstamped = entry.2.unstamped) (parts : List String)
    (entries : List (List String × Node)) :
    ((entries.map change).find? fun entry => entry.1 == parts).map (·.2.unstamped) =
      (entries.find? fun entry => entry.1 == parts).map (·.2.unstamped) := by
  induction entries with
  | nil => rfl
  | cons entry entries ih =>
    by_cases h : entry.1 = parts
    · simp [key, node, h]
    · have hb : (entry.1 == parts) = false := beq_eq_false_iff_ne.mpr h
      rw [List.map_cons, List.find?_cons, List.find?_cons, key, hb]
      exact ih

theorem seen_touch (fs : Files) (directory parts : List String) :
    (fs.touch directory).seen parts = fs.seen parts := by
  by_cases root : parts = []
  · subst root
    simp
  · simp only [seen, find?, root, if_false, touch, Option.map_map, Function.comp_def]
    apply find?_map
    · intro entry
      split <;> rfl
    · rintro ⟨path, node⟩
      cases node <;> by_cases h : path = directory <;> simp [h, Node.unstamped]

theorem seen_put (fs : Files) {place : List String} (inner : place ≠ []) (node : Node)
    (parts : List String) :
    (fs.put place node).seen parts =
      if parts = place then some node.unstamped else fs.seen parts := by
  rw [put, seen_touch]
  by_cases root : parts = []
  · subst root
    simp [inner.symm]
  · have kept := find?_filter (· != place) parts fs.entries
    by_cases h : parts = place
    · subst h
      simp only [bne_self_eq_false, Bool.false_eq_true, if_false] at kept
      simp [seen, find?, root, erase, kept, -List.find?_filter]
    · simp only [bne_iff_ne, ne_eq, h, not_false_eq_true, if_true] at kept
      simp [seen, find?, root, erase, kept, h, Ne.symm h]

theorem seen_eraseTree {place : List String} (inner : place ≠ []) (fs : Files)
    (parts : List String) :
    (fs.eraseTree place).seen parts = if place <+: parts then none else fs.seen parts := by
  rw [eraseTree, seen_touch]
  by_cases root : parts = []
  · subst root
    simp [inner]
  · have kept := find?_filter (fun path => !place.isPrefixOf path) parts fs.entries
    by_cases h : place <+: parts
    · simp only [List.isPrefixOf_iff_prefix.mpr h, Bool.not_true, Bool.false_eq_true, if_false]
        at kept
      simp [seen, find?, root, kept, h]
    · simp only [Bool.eq_false_iff.mpr (mt List.isPrefixOf_iff_prefix.mp h), Bool.not_false,
        if_true] at kept
      simp [seen, find?, root, kept, h]

/-! Ways. -/

/-- A tree as it is seen: everything in it is in a directory. -/
structure Rooted (view : List String → Option Node) : Prop where
  root : view [] = some (.directory 0)
  above : ∀ parts, view parts ≠ none → view parts.dropLast = some (.directory 0)

theorem Rooted.of_prefix {view : List String → Option Node} (rooted : Rooted view)
    {place parts : List String} (h : place <+: parts) (there : view parts ≠ none) :
    view place ≠ none := by
  obtain ⟨rest, rfl⟩ := h
  induction rest using List.reverseRecOn with
  | nil => simpa using there
  | append_singleton rest part ih =>
    apply ih
    have := rooted.above _ there
    rw [← List.append_assoc, List.dropLast_concat] at this
    simp [this]

/-- A way through a tree that does not end early, and the place at its end. It is what `walk` finds,
but for the times of directories. -/
inductive Leads (view : List String → Option Node) (follow : Bool) :
    Nat → List String → List String → List String → Prop
  | stop (links here) : Leads view follow links here [] here
  | up {links here rest place} (tail : Leads view follow links here.dropLast rest place) :
    Leads view follow links here (".." :: rest) place
  | last {links here part} (named : part ≠ "..") (short : part.utf8ByteSize ≤ maxName)
    (ends : match view (here ++ [part]) with
      | some (.directory _) => False
      | some (.link _) => follow = false
      | _ => True) :
    Leads view follow links here [part] (here ++ [part])
  | through {links here part rest target place} (named : part ≠ "..")
    (short : part.utf8ByteSize ≤ maxName) (there : view (here ++ [part]) = some (.link target))
    (followed : ¬ (rest = [] ∧ follow = false))
    (tail : Leads view follow links (if target.isAbsolute then [] else here) (target.parts ++ rest)
      place) :
    Leads view follow (links + 1) here (part :: rest) place
  | into {links here part rest place} (named : part ≠ "..")
    (short : part.utf8ByteSize ≤ maxName) (there : view (here ++ [part]) = some (.directory 0))
    (tail : Leads view follow links (here ++ [part]) rest place) :
    Leads view follow links here (part :: rest) place

theorem leads_of_walk {fs : Files} {follow : Bool} {links : Nat} {here parts : List String}
    {place : Place} (h : fs.walk follow links here parts = .ok place) :
    Leads fs.seen follow links here parts place.parts ∧ place.node = fs.find? place.parts := by
  fun_induction walk fs follow links here parts with
  | case1 links here =>
    cases h
    exact ⟨.stop links here, rfl⟩
  | case2 links here rest ih =>
    obtain ⟨tail, node⟩ := ih h
    exact ⟨.up tail, node⟩
  | case3 => cases h
  | case4 links here part named short there missing =>
    cases h
    refine ⟨.last named (by omega) ?_, missing.symm⟩
    rw [seen_eq_none.mpr missing]
    trivial
  | case5 => cases h
  | case6 links here part rest named short there target found unfollowed =>
    cases h
    obtain ⟨rfl, unfollowed⟩ := unfollowed
    refine ⟨.last named (by omega) ?_, found.symm⟩
    rw [seen_eq_link.mpr found]
    exact unfollowed
  | case7 => cases h
  | case8 here part rest named short there target found followed links ih =>
    obtain ⟨tail, node⟩ := ih h
    exact ⟨.through named (by omega) (seen_eq_link.mpr found) followed tail, node⟩
  | case9 links here part rest named short there stamp found ih =>
    obtain ⟨tail, node⟩ := ih h
    exact ⟨.into named (by omega) (seen_eq_directory.mpr ⟨stamp, found⟩) tail, node⟩
  | case10 links here part named short there content executable stamp found =>
    cases h
    refine ⟨.last named (by omega) ?_, found.symm⟩
    rw [seen_eq_file.mpr found]
    trivial
  | case11 => cases h

theorem walk_of_leads {fs : Files} {follow : Bool} {links : Nat} {here parts place : List String}
    (h : Leads fs.seen follow links here parts place) :
    fs.walk follow links here parts = .ok ⟨place, fs.find? place⟩ := by
  induction h with
  | stop => rw [walk]
  | up _ ih => rw [walk, ih]
  | @last links here part named short ends =>
    cases found : fs.find? (here ++ [part]) with
    | none => simp [walk, Nat.not_lt.mpr short, found]
    | some node =>
      cases node with
      | file => simp [walk, Nat.not_lt.mpr short, found]
      | directory stamp =>
        rw [seen_eq_directory.mpr ⟨stamp, found⟩] at ends
        exact ends.elim
      | link target =>
        rw [seen_eq_link.mpr found] at ends
        have : follow = false := ends
        simp [walk, Nat.not_lt.mpr short, found, this]
  | through named short there followed _ ih =>
    rw [walk, if_neg (Nat.not_lt.mpr short)]
    · simp only [seen_eq_link.mp there, if_neg followed, ih]
    · exact named
  | into named short there _ ih =>
    obtain ⟨stamp, found⟩ := seen_eq_directory.mp there
    rw [walk, if_neg (Nat.not_lt.mpr short)]
    · simp only [found, ih]
    · exact named

namespace Leads

variable {view : List String → Option Node} {follow : Bool} {links : Nat}
  {here parts place : List String}

/-- A way with more to come goes through a directory, from which the rest is a way of its own. -/
theorem split (rooted : Rooted view) {front back : List String}
    (way : Leads view follow links here (front ++ back) place) (rest : back ≠ [])
    (inside : view here = some (.directory 0)) :
    ∃ left mid, Leads view true links here front mid ∧ view mid = some (.directory 0) ∧
      Leads view follow left mid back place := by
  generalize whole : front ++ back = parts at way
  induction way generalizing front with
  | stop links here => exact absurd (List.append_eq_nil_iff.mp whole).2 rest
  | @up links here tail_parts place tail ih =>
    cases front with
    | nil =>
      subst whole
      exact ⟨links, here, .stop links here, inside, .up tail⟩
    | cons name front =>
      cases whole
      obtain ⟨left, mid, first, directory, second⟩ :=
        ih (rooted.above here (by simp [inside])) rfl
      exact ⟨left, mid, .up first, directory, second⟩
  | @last links here part named short ends =>
    cases front with
    | nil =>
      subst whole
      exact ⟨links, here, .stop links here, inside, .last named short ends⟩
    | cons name front =>
      obtain ⟨-, final⟩ := List.cons.inj whole
      exact absurd (List.append_eq_nil_iff.mp final).2 rest
  | @through links here part tail_parts target place named short there followed tail ih =>
    cases front with
    | nil =>
      subst whole
      exact ⟨links + 1, here, .stop _ here, inside, .through named short there followed tail⟩
    | cons name front =>
      cases whole
      have start : view (if target.isAbsolute then [] else here) = some (.directory 0) := by
        split
        · exact rooted.root
        · exact inside
      obtain ⟨left, mid, first, directory, second⟩ :=
        @ih (target.parts ++ front) start (List.append_assoc ..)
      exact ⟨left, mid, .through named short there (by simp) first, directory, second⟩
  | @into links here part tail_parts place named short there tail ih =>
    cases front with
    | nil =>
      subst whole
      exact ⟨links, here, .stop links here, inside, .into named short there tail⟩
    | cons name front =>
      cases whole
      obtain ⟨left, mid, first, directory, second⟩ := ih there rfl
      exact ⟨left, mid, .into named short there first, directory, second⟩

/-- A way to something is one as well if a link at its end is not followed. -/
theorem unfollowed (way : Leads view true links here parts place) (there : view place ≠ none) :
    ∃ place, Leads view false links here parts place ∧ view place ≠ none := by
  induction way with
  | stop links here => exact ⟨here, .stop links here, there⟩
  | up _ ih =>
    obtain ⟨place, way, found⟩ := ih there
    exact ⟨place, .up way, found⟩
  | @last links here part named short ends =>
    refine ⟨here ++ [part], .last named short ?_, there⟩
    split at ends <;> simp_all
  | @through links here part rest target place named short found followed tail ih =>
    by_cases final : rest = []
    · subst final
      exact ⟨here ++ [part], .last named short (by simp [found]), by simp [found]⟩
    · obtain ⟨place, way, found'⟩ := ih there
      exact ⟨place, .through named short found (by simp [final]) way, found'⟩
  | into named short found _ ih =>
    obtain ⟨place, way, found'⟩ := ih there
    exact ⟨place, .into named short found way, found'⟩

/-- A way stays one in a tree that has the same directories and links and no new link at its end. -/
theorem carry {later : Files} {follow : Bool} (way : Leads view false links here parts place)
    (kept : ∀ parts node, view parts = some node → (∀ content executable stamp,
      node ≠ .file content executable stamp) → later.seen parts = some node)
    (tail : follow = false ∨ ∀ target, later.seen place ≠ some (.link target)) :
    Leads later.seen follow links here parts place := by
  induction way with
  | stop links here => exact .stop links here
  | up _ ih => exact .up (ih tail)
  | @last links here part named short ends =>
    cases there : later.seen (here ++ [part]) with
    | none => exact .last named short (by simp [there])
    | some node =>
      cases node with
      | file => exact .last named short (by simp [there])
      | directory stamp =>
        cases eq_zero_of_seen there
        exact .into named short there (.stop links _)
      | link target =>
        have := tail.resolve_right fun h => h target there
        exact .last named short (by simpa [there] using this)
  | through named short there followed _ ih =>
    exact .through named short (kept _ _ there (by simp)) (by simp_all) (ih tail)
  | into named short there _ ih =>
    exact .into named short (kept _ _ there (by simp)) (ih tail)

/-- What a way leads to is in a directory. -/
theorem in_directory (rooted : Rooted view) (way : Leads view follow links here parts place)
    (inside : view here = some (.directory 0)) :
    view place.dropLast = some (.directory 0) := by
  induction way with
  | stop links here => exact rooted.above here (by simp [inside])
  | @up links here _ _ _ ih => exact ih (rooted.above here (by simp [inside]))
  | last => simpa using inside
  | through _ _ _ _ _ ih =>
    apply ih
    split
    · exact rooted.root
    · exact inside
  | into _ _ there _ ih => exact ih there

/-- A single name that is not there leads nowhere else. -/
theorem eq_of_missing {name : String} (way : Leads view follow links here [name] place)
    (named : name ≠ "..") (missing : view (here ++ [name]) = none) : place = here ++ [name] := by
  cases way with
  | up => exact absurd rfl named
  | last => rfl
  | through _ _ there => simp [missing] at there
  | into _ _ there => simp [missing] at there

/-- Where a link at the end is not followed the last name stays. -/
theorem getLast?_eq (rooted : Rooted view) {name : String}
    (way : Leads view false links here (parts ++ [name]) place) (named : name ≠ "..")
    (inside : view here = some (.directory 0)) : place.getLast? = some name := by
  obtain ⟨left, mid, -, -, final⟩ := way.split rooted (by simp) inside
  cases final with
  | up => exact absurd rfl named
  | last => simp
  | through _ _ _ followed => simp at followed
  | into _ _ _ tail =>
    cases tail
    simp

/-- A way whose last link is not followed ends at something that is there, or at the last of its
parts. -/
theorem there_or_named (rooted : Rooted view) (way : Leads view false links here parts place)
    (inside : view here = some (.directory 0)) :
    view place ≠ none ∨ place.getLast? = parts.getLast? := by
  rcases List.eq_nil_or_concat parts with rfl | ⟨front, name, rfl⟩
  · cases way
    exact .inl (by simp [inside])
  · rw [List.concat_eq_append] at way ⊢
    by_cases named : name = ".."
    · subst named
      obtain ⟨left, mid, -, directory, final⟩ := way.split rooted (by simp) inside
      have above := rooted.above mid (by simp [directory])
      cases final with
      | up tail =>
        cases tail
        exact .inl (by simp [above])
      | last named => exact absurd rfl named
      | through named => exact absurd rfl named
      | into named => exact absurd rfl named
    · exact .inr (by rw [way.getLast?_eq rooted named inside]; simp)

end Leads

/-! Paths. -/

theorem utf8ByteSize_text_parent (path : Path) :
    path.parent.text.utf8ByteSize ≤ max 1 path.text.utf8ByteSize := by
  by_cases empty : path.parts = []
  · simp only [Path.parent, Path.text, empty, List.dropLast_nil]
    omega
  · have whole := List.dropLast_concat_getLast empty
    by_cases top : path.parts.dropLast = []
    · by_cases relative : path.slashes = 0
      · have dot : ".".utf8ByteSize = 1 := by decide
        simp only [Path.parent, Path.text, top, relative, and_self, if_true, dot]
        omega
      · simp only [Path.parent, Path.text, top, relative, empty, and_self, and_true, if_false,
          String.intercalate_nil, String.append_empty, String.utf8ByteSize_append]
        omega
    · have joined := String.intercalate_append_of_ne_nil (s := "/") top
        (List.cons_ne_nil (path.parts.getLast empty) [])
      rw [whole] at joined
      simp only [Path.parent, Path.text, top, empty, and_false, if_false, joined,
        String.utf8ByteSize_append]
      omega

/-- Where a path leads from a working directory. -/
def Reaches (fs : Files) (follow : Bool) (cwd : List String) (path : Path) (place : List String) :
    Prop :=
  path.text.utf8ByteSize < maxPath ∧
    Leads fs.seen follow maxLinks (if path.isAbsolute then [] else cwd) path.parts place

theorem place_eq_ok {fs : Files} {follow : Bool} {cwd : List String} {path : Path} {place : Place} :
    fs.place follow cwd path = .ok place ↔
      fs.Reaches follow cwd path place.parts ∧ place.node = fs.find? place.parts := by
  obtain ⟨parts, node⟩ := place
  constructor
  · intro h
    rw [Files.place] at h
    split at h
    · cases h
    · rename_i short
      obtain ⟨way, found⟩ := leads_of_walk h
      exact ⟨⟨Nat.lt_of_not_le short, way⟩, found⟩
  · rintro ⟨⟨short, way⟩, found⟩
    have node_eq : node = fs.find? parts := found
    subst node_eq
    rw [Files.place, if_neg (Nat.not_le.mpr short)]
    exact walk_of_leads way

theorem Reaches.carry {fs later : Files} {follow : Bool} {cwd : List String} {path : Path}
    {place : List String} (h : fs.Reaches false cwd path place)
    (kept : ∀ parts node, fs.seen parts = some node → (∀ content executable stamp,
      node ≠ .file content executable stamp) → later.seen parts = some node)
    (tail : follow = false ∨ ∀ target, later.seen place ≠ some (.link target)) :
    later.Reaches follow cwd path place :=
  ⟨h.1, h.2.carry kept tail⟩

theorem Reaches.place_eq {fs : Files} {follow : Bool} {cwd : List String} {path : Path}
    {place : List String} (h : fs.Reaches follow cwd path place) :
    fs.place follow cwd path = .ok ⟨place, fs.find? place⟩ :=
  place_eq_ok.mpr ⟨h, rfl⟩

/-- A single name below the root leads to its own place. -/
theorem place_top {fs : Files} {follow : Bool} {cwd : List String} {name : String}
    (named : name ≠ "..") (short : name.utf8ByteSize ≤ maxName)
    (plain : follow = false ∨ ∀ target, fs.seen [name] ≠ some (.link target)) :
    fs.place follow cwd (.absolute [name]) = .ok ⟨[name], fs.find? [name]⟩ := by
  have size : (Path.absolute [name]).text.utf8ByteSize < maxPath := by
    have slash : "/".utf8ByteSize = 1 := by decide
    simp only [Path.absolute, Path.text, maxName, maxPath, Nat.reduceEqDiff, false_and, if_false,
      List.replicate_one, String.intercalate_singleton, String.utf8ByteSize_append] at short ⊢
    change "/".utf8ByteSize + _ < _
    omega
  refine place_eq_ok.mpr ⟨⟨size, ?_⟩, rfl⟩
  change Leads fs.seen follow maxLinks [] [name] ([] ++ [name])
  cases there : fs.seen [name] with
  | none => exact .last named short (by simp [there])
  | some node =>
    cases node with
    | file => exact .last named short (by simp [there])
    | directory stamp =>
      cases eq_zero_of_seen there
      exact .into named short there (.stop _ _)
    | link target =>
      have := plain.resolve_right fun h => h target there
      exact .last named short (by simpa [there] using this)

theorem content_top {fs : Files} {cwd : List String} {name : String} {bytes : List UInt8}
    {executable : Bool} {stamp : Stamp} (named : name ≠ "..") (short : name.utf8ByteSize ≤ maxName)
    (there : fs.find? [name] = some (.file bytes executable stamp)) :
    fs.content cwd (.absolute [name]) = .ok bytes := by
  have plain (target : Path) : fs.seen [name] ≠ some (.link target) := by
    simp [seen, there, Node.unstamped]
  rw [content, place_top named short (.inr plain), there]

theorem readText_of_content {fs : Files} {cwd : List String} {path : Path} {bytes : List UInt8}
    {text : List Char} (plain : path.holdsNul = false) (readable : fs.content cwd path = .ok bytes)
    (decoded : (Text.decodeUtf8 bytes).toOption = some text) :
    fs.readText cwd path = .ok (String.ofList (Text.unifyNewlines text)) := by
  have read : fs.read cwd path = .ok bytes := by
    rw [read, plain, if_neg Bool.false_ne_true, readable]
    rfl
  rw [readText, read]
  cases same : Text.decodeUtf8 bytes with
  | error => simp [same, Except.toOption] at decoded
  | ok =>
    rw [same] at decoded
    cases decoded
    simp only [same]

theorem Reaches.unique {fs : Files} {follow : Bool} {cwd : List String} {path : Path}
    {place other : List String} (h : fs.Reaches follow cwd path place)
    (h' : fs.Reaches follow cwd path other) : place = other := by
  have first := h.place_eq
  have second := h'.place_eq
  rw [first] at second
  cases second
  rfl

theorem isDirectory_iff {fs : Files} {cwd : List String} {path : Path} :
    fs.isDirectory cwd path = true ↔
      ∃ place, fs.Reaches true cwd path place ∧ fs.seen place = some (.directory 0) := by
  constructor
  · intro h
    rw [isDirectory, node?] at h
    cases found : fs.place true cwd path with
    | error => simp [found] at h
    | ok place =>
      obtain ⟨way, node⟩ := place_eq_ok.mp found
      refine ⟨place.parts, way, seen_eq_directory.mpr ?_⟩
      rw [← node]
      simp only [found] at h
      split at h
      · exact ⟨_, ‹_›⟩
      · cases h
  · rintro ⟨place, way, there⟩
    obtain ⟨stamp, found⟩ := seen_eq_directory.mp there
    have := way.place_eq
    simp [isDirectory, node?, this, found]

theorem content_iff {fs : Files} {cwd : List String} {path : Path} {bytes : List UInt8} :
    (fs.content cwd path).toOption = some bytes ↔
      ∃ place executable stamp, fs.Reaches true cwd path place ∧
        fs.seen place = some (.file bytes executable stamp) := by
  constructor
  · intro h
    rw [content] at h
    cases found : fs.place true cwd path with
    | error => simp [found, Except.toOption] at h
    | ok place =>
      obtain ⟨way, node⟩ := place_eq_ok.mp found
      simp only [found] at h
      split at h
      · rename_i executable stamp there
        cases h
        exact ⟨place.parts, executable, stamp, way, seen_eq_file.mpr (node ▸ there)⟩
      · cases h
      · cases h
  · rintro ⟨place, executable, stamp, way, there⟩
    have := way.place_eq
    simp [content, this, seen_eq_file.mp there, Except.toOption]

/-- What can be read depends on what is seen alone. -/
theorem content_congr {fs fs' : Files} (same : fs'.seen = fs.seen) (cwd : List String) (path : Path) :
    (fs'.content cwd path).toOption = (fs.content cwd path).toOption := by
  apply Option.ext
  intro bytes
  rw [content_iff, content_iff]
  simp only [Reaches, same]

end Files
end ThemeSheet
