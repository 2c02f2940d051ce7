/-
ShowTree.Proofs.Path.Canonical — what is true of the one path that every place has.

The path of a place is written from the names that lead to it, with one slash before each
(`toList_path`), so its parts are the root and these names (`parts_path`). From that
follows what the library reads off such a path: it leads back to its place
(`ofPath?_path`), no other parts name the place (`ofParts?_eq_some_iff`), its parent is the
path of the directory (`parent?_path_entry`), and its last name is that of the entry
(`fileName?_path_entry`).
-/
import ShowTree.Path.Place

namespace ShowTree

open ShowTree.Text

/-! ## 1. Names -/

namespace Name

/-- The characters of a name. -/
def chars (n : Name) : List Char :=
  n.text.toList

theorem chars_injective {n m : Name} (h : n.chars = m.chars) : n = m := by
  cases n; cases m
  have : _ = _ := String.toList_injective h
  simp_all

theorem chars_ne_nil (n : Name) : n.chars ≠ [] := by
  intro h
  exact n.isName.1 (String.toList_injective (by simpa [chars] using h))

theorem chars_ne_dot (n : Name) : n.chars ≠ ['.'] := by
  intro h
  exact n.isName.2.1 (String.toList_injective (by simpa [chars] using h))

theorem slash_not_mem_chars (n : Name) : '/' ∉ n.chars :=
  n.isName.2.2.2

theorem head?_chars_ne (n : Name) : n.chars.head? ≠ some '/' := fun h =>
  n.slash_not_mem_chars (List.mem_of_mem_head? h)

theorem getLast?_chars_ne (n : Name) : n.chars.getLast? ≠ some '/' := fun h =>
  n.slash_not_mem_chars (List.mem_of_mem_getLast? h)

/-- A name is one part of a path. -/
theorem ofPiece?_chars (n : Name) : Part.ofPiece? n.chars = some (.name n) := by
  have htext : String.ofList n.chars = n.text := String.ofList_toList
  have hup : n.text ≠ ".." := n.isName.2.2.1
  simp only [Part.ofPiece?, htext, if_neg hup, dif_pos n.isName]

theorem isIdle_chars (n : Name) : Path.isIdle n.chars = false := by
  simp [Path.isIdle, n.chars_ne_nil, n.chars_ne_dot]

end Name

namespace Path

theorem ofPiece?_nil : Part.ofPiece? [] = none := by decide

/-- The parts of an absolute path are the root and what its pieces stand for. -/
theorem parts_eq {p : Path} {cs : List Char} (h : p.text.toList = '/' :: cs) :
    p.parts = .root :: (splitOn '/' cs).filterMap Part.ofPiece? := by
  have hpieces : p.pieces = [] :: splitOn '/' cs := by simp [pieces, h, splitOn]
  rw [parts, hpieces]
  cases hs : splitOn '/' cs with
  | nil => exact absurd hs (splitOn_ne_nil '/' cs)
  | cons first rest => rfl

end Path

namespace Place

/-- The names that lead from the root to a place. -/
def names : Place → List Name
  | .root => []
  | .entry dir name => dir.names ++ [name]

theorem names_injective : ∀ {p q : Place}, p.names = q.names → p = q
  | .root, .root, _ => rfl
  | .root, .entry _ _, h => by simp [names] at h
  | .entry _ _, .root, h => by simp [names] at h
  | .entry d n, .entry e m, h => by
    have hlast := List.append_inj' h rfl
    have hdir := names_injective hlast.1
    have hname : n = m := by simpa using hlast.2
    rw [hdir, hname]

/-- The place that names lead to from another. -/
def down (p : Place) (ns : List Name) : Place :=
  ns.foldl .entry p

theorem names_down (p : Place) (ns : List Name) : (p.down ns).names = p.names ++ ns := by
  induction ns generalizing p with
  | nil => simp [down]
  | cons n ns ih =>
    rw [down, List.foldl_cons, ← down, ih]
    simp [names]

/-- The place itself and the directories above it, up to the root. -/
def upward : Place → List Place
  | .root => [.root]
  | .entry dir name => .entry dir name :: dir.upward

theorem self_mem_upward (p : Place) : p ∈ p.upward := by
  cases p <;> simp [upward]

theorem mem_upward_trans {a b : Place} : ∀ {p : Place}, a ∈ b.upward → b ∈ p.upward → a ∈ p.upward
  | .root, ha, hb => by
    have : b = .root := by simpa [upward] using hb
    exact this ▸ ha
  | .entry dir name, ha, hb => by
    rcases List.mem_cons.1 hb with rfl | hb
    · exact ha
    · exact List.mem_cons_of_mem _ (mem_upward_trans ha hb)

theorem mem_upward_iff {a : Place} : ∀ {p : Place}, a ∈ p.upward ↔ a.names <+: p.names
  | .root => by
    constructor
    · intro h
      have : a = .root := by simpa [upward] using h
      simp [this]
    · intro h
      have : a.names = names .root := List.prefix_nil.1 h
      simp [upward, names_injective this]
  | .entry dir name => by
    rw [upward, List.mem_cons, mem_upward_iff, names, List.prefix_concat_iff]
    constructor
    · rintro (rfl | h)
      · exact .inl rfl
      · exact .inr h
    · rintro (h | h)
      · exact .inl (names_injective h)
      · exact .inr h

theorem entry_not_mem_upward {dir : Place} {name : Name} : entry dir name ∉ dir.upward := by
  intro h
  have hlen := (mem_upward_iff.1 h).length_le
  simp only [names, List.length_append, List.length_singleton] at hlen
  omega

theorem self_not_mem_tail_upward : ∀ {p : Place}, p ∉ p.upward.tail
  | .root => by simp [upward]
  | .entry _ _ => entry_not_mem_upward

/-! ## 2. The text of a canonical path -/

/-- The characters of the names that lead to a place. -/
def pieces (p : Place) : List (List Char) :=
  p.names.map Name.chars

theorem slash_not_mem_pieces {p : Place} {piece : List Char} (h : piece ∈ p.pieces) :
    '/' ∉ piece := by
  obtain ⟨n, -, rfl⟩ := List.mem_map.1 h
  exact n.slash_not_mem_chars

@[simp] theorem pieces_root : pieces .root = [] := rfl

@[simp] theorem pieces_entry (dir : Place) (name : Name) :
    (entry dir name).pieces = dir.pieces ++ [name.chars] := by
  simp [pieces, names]

/-- Joining a name to a path that ends in a slash, or does not. -/
theorem toList_join_name (p : Path) (n : Name) :
    (p.join n.text).text.toList =
      if p.text.toList.getLast?.all (· == '/') then p.text.toList ++ n.chars
      else p.text.toList ++ '/' :: n.chars := by
  have hhead : n.text.toList.head? ≠ some '/' := n.head?_chars_ne
  simp only [Path.join, if_neg hhead]
  split <;> simp [Name.chars]

/-- The path of a place has one slash before every name. -/
theorem toList_path : ∀ p : Place, p.path.text.toList = '/' :: Text.join ['/'] p.pieces
  | .root => rfl
  | .entry .root name => by
    rw [path, toList_join_name, path]
    simp [join]
  | .entry (.entry dir above) name => by
    have hne : (entry dir above).pieces ≠ [] := by simp
    have ih := toList_path (.entry dir above)
    rw [path, toList_join_name, ih, pieces_entry (entry dir above), join_concat _ _ hne]
    have hlast :
        ('/' :: Text.join ['/'] (entry dir above).pieces).getLast?.all (· == '/') = false := by
      have hchars : ∃ c, above.chars.getLast? = some c ∧ c ≠ '/' := by
        cases h : above.chars.getLast? with
        | none => exact absurd (List.getLast?_eq_none_iff.1 h) above.chars_ne_nil
        | some c => exact ⟨c, rfl, fun e => above.getLast?_chars_ne (e ▸ h)⟩
      obtain ⟨c, hc, hslash⟩ := hchars
      have hjoin : (Text.join ['/'] (entry dir above).pieces).getLast? = some c := by
        rw [pieces_entry]
        cases hdir : dir.pieces with
        | nil => simpa [join] using hc
        | cons first rest =>
          rw [join_concat _ _ (by simp), List.getLast?_append, hc]
          rfl
      rw [List.getLast?_cons, hjoin]
      simp [hslash]
    rw [if_neg (by rw [hlast]; simp)]
    simp

/-! ## 3. The parts of a canonical path -/

/-- The characters of the path of a place, but none for the root. -/
def stem : Place → List Char
  | .root => []
  | .entry dir name => dir.stem ++ '/' :: name.chars

theorem stem_entry : ∀ (dir : Place) (name : Name),
    (entry dir name).stem = '/' :: Text.join ['/'] (entry dir name).pieces
  | .root, name => by simp [stem, join]
  | .entry dir above, name => by
    rw [stem, stem_entry dir above, pieces_entry (entry dir above), join_concat _ _ (by simp)]
    simp

/-- The path of an entry is that of its directory, a slash and its name. -/
theorem toList_path_entry (dir : Place) (name : Name) :
    (entry dir name).path.text.toList = dir.stem ++ '/' :: name.chars := by
  rw [toList_path, ← stem_entry, stem]

/-- The pieces of a canonical path: nothing before the first slash, then the names. -/
theorem pieces_path (p : Place) :
    p.path.pieces = [] :: if p.names = [] then [[]] else p.pieces := by
  rw [Path.pieces, toList_path]
  by_cases h : p.names = []
  · simp [h, pieces, splitOn, join]
  · have hne : p.pieces ≠ [] := by simpa [pieces] using h
    have hsplit := splitOn_join hne (fun piece hp => slash_not_mem_pieces hp)
    simp only [if_neg h, splitOn, if_pos, hsplit]

theorem filterMap_ofPiece?_pieces (p : Place) :
    p.pieces.filterMap Part.ofPiece? = p.names.map Part.name := by
  have hname : Part.ofPiece? ∘ Name.chars = some ∘ Part.name :=
    funext Name.ofPiece?_chars
  rw [pieces, List.filterMap_map, hname, List.filterMap_eq_map]

/-- The parts of a canonical path are the root and the names that lead to the place. -/
theorem parts_path (p : Place) : p.path.parts = .root :: p.names.map Part.name := by
  rw [Path.parts_eq (toList_path p)]
  by_cases h : p.pieces = []
  · have hnames : p.names = [] := by simpa [pieces] using h
    rw [h, hnames, join, splitOn, List.filterMap_cons, Path.ofPiece?_nil]
    rfl
  · rw [splitOn_join h fun piece hp => slash_not_mem_pieces hp, filterMap_ofPiece?_pieces]

theorem path_injective {p q : Place} (h : p.path = q.path) : p = q := by
  have hparts : p.path.parts = q.path.parts := congrArg Path.parts h
  rw [parts_path, parts_path, List.cons.injEq] at hparts
  have hname : ∀ a b, Part.name a = Part.name b → a = b := fun a b h => by injection h
  exact names_injective (List.map_inj_right hname |>.1 hparts.2)

theorem foldl_step_names : ∀ p : Place, (p.names.map Part.name).foldl step .root = p
  | .root => rfl
  | .entry dir name => by
    simp only [names, List.map_append, List.foldl_append, foldl_step_names dir]
    rfl

/-- A canonical path leads to its place. -/
theorem ofPath?_path (p : Place) : ofPath? p.path = some p := by
  simp [ofPath?, parts_path, foldl_step_names p]

theorem foldl_enter?_none (parts : List Part) : parts.foldl enter? none = none := by
  induction parts with
  | nil => rfl
  | cons part rest ih => simpa [enter?] using ih

/-- Entering part by part, one must be given names, and goes down by these. -/
theorem foldl_enter?_eq_some {p : Place} :
    ∀ {parts : List Part} {start : Place}, parts.foldl enter? (some start) = some p →
      ∃ ns : List Name, parts = ns.map Part.name ∧ p.names = start.names ++ ns
  | [], start, h => ⟨[], rfl, by simp at h; simp [h]⟩
  | part :: rest, start, h => by
    cases part with
    | name n =>
      obtain ⟨ns, hrest, hnames⟩ := @foldl_enter?_eq_some _ _ (.entry start n) h
      exact ⟨n :: ns, by simp [hrest], by simp [hnames, names]⟩
    | _ => simp [enter?, foldl_enter?_none] at h

theorem foldl_enter?_names : ∀ p : Place, (p.names.map Part.name).foldl enter? (some .root) = some p
  | .root => rfl
  | .entry dir name => by
    simp only [names, List.map_append, List.foldl_append, foldl_enter?_names dir]
    rfl

/-- The parts that name a place are those of its path, and no others. -/
theorem ofParts?_eq_some_iff {parts : List Part} {p : Place} :
    ofParts? parts = some p ↔ parts = p.path.parts := by
  rw [parts_path]
  constructor
  · intro h
    cases parts with
    | nil => simp [ofParts?] at h
    | cons first rest =>
      cases first with
      | root =>
        obtain ⟨ns, hrest, hnames⟩ := foldl_enter?_eq_some h
        rw [hrest, hnames]
        simp [names]
      | _ => simp [ofParts?] at h
  · rintro rfl
    exact foldl_enter?_names p

/-! ## 4. The directory and the name -/

theorem dropIdle_concat {pieces : List (List Char)} {last : List Char}
    (h : Path.isIdle last = false) : Path.dropIdle (pieces ++ [last]) = pieces ++ [last] := by
  simp [Path.dropIdle, h]

theorem dropIdle_pieces : ∀ p : Place, Path.dropIdle p.pieces = p.pieces
  | .root => rfl
  | .entry dir name => by
    rw [pieces_entry]
    exact dropIdle_concat name.isIdle_chars

/-- The parent of the path of an entry is the path of its directory. -/
theorem parent?_path_entry (dir : Place) (name : Name) :
    (entry dir name).path.parent? = some dir.path := by
  have hne : (entry dir name).names ≠ [] := by simp [names]
  have hbody : Path.dropIdle (entry dir name).pieces = dir.pieces ++ [name.chars] := by
    rw [dropIdle_pieces, pieces_entry]
  have habove : Path.dropIdle (dir.pieces ++ [name.chars]).dropLast = dir.pieces := by
    rw [List.dropLast_concat, dropIdle_pieces]
  have htext : dir.path = ⟨String.ofList ('/' :: Text.join ['/'] dir.pieces)⟩ := by
    rw [← toList_path, String.ofList_toList]
  rw [Path.parent?, pieces_path, if_neg hne]
  simp only [hbody]
  split
  · rename_i hnil
    simp at hnil
  · rw [habove, htext]
    cases dir.pieces with
    | nil => rfl
    | cons first rest => rfl

theorem fileName?_path_entry (dir : Place) (name : Name) :
    (entry dir name).path.fileName? = some name := by
  have hparts :
      (entry dir name).path.parts = (.root :: dir.names.map Part.name) ++ [.name name] := by
    simp [parts_path, names]
  simp only [Path.fileName?, hparts, List.getLast?_concat]

end Place

end ShowTree
