/-
ShowTree.Proofs.Layout.Sidecar — every object has a record of its own.

With the names that are used unless others are asked for, the record of an object is at a
place (`recordPath_path`), and so is the draft it is written to first (`draftPath_path`).
No two objects share a record, and a directory and a file of one place do not either
(`recordPlace_injective`); drafts and the directories that hold them are never records
(`recordPlace_ne_draftPlace`, `recordPlace_ne_metaDir`). As trees know objects by key, the same
is said of keys for places without a backslash (`key_path`), and paths that stay outside
of the directories for metadata are told from all that is in them (`Outside.key_ne`).
-/
import ShowTree.FileSystem.Tree
import ShowTree.Layout
import ShowTree.Proofs.Path.Canonical

namespace ShowTree

open ShowTree.Text

/-! ## 1. Names -/

/-- Two names make a name when they are written one after the other. -/
def Name.append (n tail : Name) : Name where
  text := n.text ++ tail.text
  isName := by
    have hn : n.text.toList ≠ [] := n.chars_ne_nil
    have htail : tail.text.toList ≠ [] := tail.chars_ne_nil
    have hlen := List.length_pos_iff.2 hn
    have hlen' := List.length_pos_iff.2 htail
    have hdot : n.text.toList ≠ ['.'] := n.chars_ne_dot
    refine ⟨?_, ?_, ?_, ?_⟩
    · intro h
      simpa [hn] using congrArg String.toList h
    · intro h
      have := congrArg (List.length ∘ String.toList) h
      simp only [Function.comp_apply, String.toList_append, List.length_append] at this
      have hone : ".".toList.length = 1 := rfl
      omega
    · intro h
      have htext : n.text.toList ++ tail.text.toList = ['.', '.'] := by
        simpa using congrArg String.toList h
      cases hc : n.text.toList with
      | nil => exact hn hc
      | cons c cs =>
        rw [hc, List.cons_append, List.cons.injEq] at htext
        have hcs : cs ≠ [] := fun e => hdot (by rw [hc, e, htext.1])
        have := congrArg List.length htext.2
        have hpos := List.length_pos_iff.2 hcs
        simp only [List.length_append, List.length_singleton] at this
        omega
    · rw [String.toList_append, List.mem_append, not_or]
      exact ⟨n.slash_not_mem_chars, tail.slash_not_mem_chars⟩

@[simp] theorem Name.chars_append (n tail : Name) : (n.append tail).chars = n.chars ++ tail.chars :=
  String.toList_append

theorem Name.append_injective {n m tail : Name} (h : n.append tail = m.append tail) : n = m := by
  have hchars := congrArg Name.chars h
  rw [chars_append, chars_append] at hchars
  exact chars_injective (List.append_cancel_right hchars)

namespace Layout

/-- The directory for metadata. -/
def metaName : Name := ⟨".meta", by decide⟩

/-- The record of the directory itself. -/
def dirRecordName : Name := ⟨"_", by decide⟩

/-- What comes after the name of a file in the name of its record. -/
def recordEnding : Name := ⟨"._", by decide⟩

/-- What comes after the name of a record in the name of its draft. -/
def draftEnding : Name := ⟨".tmp", by decide⟩

end Layout

/-! ## 2. The places of records -/

namespace Place

open Layout

/-- The directory for metadata in a directory. -/
def metaDir (dir : Place) : Place :=
  .entry dir metaName

/-- The directory whose metadata the record of the object at a place belongs to. -/
def recordHolder (p : Place) (isDir : Bool) : Place :=
  if isDir then p else p.up

/-- The name of the record of the object at a place. A root that is no directory has no name. -/
def recordName (p : Place) : Bool → Name
  | true => dirRecordName
  | false =>
    match p with
    | .root => recordEnding
    | .entry _ name => name.append recordEnding

/-- The place of the record of the object at a place. -/
def recordPlace (p : Place) (isDir : Bool) : Place :=
  .entry (p.recordHolder isDir).metaDir (p.recordName isDir)

/-- The place of the draft of that record. -/
def draftPlace (p : Place) (isDir : Bool) : Place :=
  .entry (p.recordHolder isDir).metaDir ((p.recordName isDir).append draftEnding)

theorem recordPath_path (p : Place) (isDir : Bool) :
    Layout.default.recordPath p.path isDir = (p.recordPlace isDir).path := by
  cases isDir with
  | true =>
    rw [Layout.recordPath, if_pos rfl, recordPlace, path, metaDir, path]
    rfl
  | false =>
    cases p with
    | root => decide
    | entry dir name =>
      rw [Layout.recordPath, if_neg Bool.false_ne_true, parent?_path_entry, fileName?_path_entry]
      rfl

theorem parent?_recordPlace (p : Place) (isDir : Bool) :
    (p.recordPlace isDir).path.parent? = some (p.recordHolder isDir).metaDir.path :=
  parent?_path_entry _ _

theorem draftPath_path (p : Place) (isDir : Bool) :
    Layout.draftPath (p.recordPlace isDir).path = (p.draftPlace isDir).path := by
  have htext : (p.recordPlace isDir).path.text ++ ".tmp" = (p.draftPlace isDir).path.text := by
    refine String.toList_injective ?_
    have hholder : (p.recordHolder isDir).metaDir.pieces ≠ [] := by simp [metaDir]
    rw [String.toList_append, toList_path, toList_path, recordPlace, draftPlace, pieces_entry,
      pieces_entry, join_concat _ _ hholder, join_concat _ _ hholder, Name.chars_append]
    simp [Name.chars, draftEnding]
  rw [Layout.draftPath, htext]

theorem getLast?_recordName (p : Place) (isDir : Bool) :
    (p.recordName isDir).chars.getLast? = some '_' := by
  cases isDir with
  | true => exact (by decide : dirRecordName.chars.getLast? = some '_')
  | false =>
    cases p with
    | root => decide
    | entry dir name =>
      rw [recordName, Name.chars_append, List.getLast?_append]
      rfl

theorem getLast?_append_draftEnding (n : Name) :
    (n.append draftEnding).chars.getLast? = some 'p' := by
  rw [Name.chars_append, List.getLast?_append]
  rfl

theorem length_recordName_false (p : Place) : 1 < (p.recordName false).chars.length := by
  cases p with
  | root => decide
  | entry dir name =>
    have hpos := List.length_pos_iff.2 name.chars_ne_nil
    have hending : recordEnding.chars.length = 2 := rfl
    rw [recordName, Name.chars_append, List.length_append]
    omega

theorem recordName_true_ne_false (p q : Place) : p.recordName true ≠ q.recordName false := by
  intro h
  have hlen := q.length_recordName_false
  rw [← h] at hlen
  exact absurd hlen (by decide : ¬ 1 < dirRecordName.chars.length)

/-- No two objects have their records in one place. -/
theorem recordPlace_injective {p q : Place} {a b : Bool} (h : p.recordPlace a = q.recordPlace b) :
    p = q ∧ a = b := by
  have hparts := entry.inj h
  have hholder : p.recordHolder a = q.recordHolder b := (entry.inj hparts.1).1
  have hname : p.recordName a = q.recordName b := hparts.2
  cases a <;> cases b
  · refine ⟨?_, rfl⟩
    have hbare : ∀ name : Name, recordEnding ≠ name.append recordEnding := by
      intro name he
      have hlen := congrArg (List.length ∘ Name.chars) he
      have hpos := List.length_pos_iff.2 name.chars_ne_nil
      simp only [Function.comp_apply, Name.chars_append, List.length_append] at hlen
      omega
    cases p with
    | root =>
      cases q with
      | root => rfl
      | entry e m => exact absurd hname (hbare m)
    | entry d n =>
      cases q with
      | root => exact absurd hname.symm (hbare n)
      | entry e m =>
        have hdir : d = e := hholder
        rw [Name.append_injective hname, hdir]
  · exact absurd hname.symm (recordName_true_ne_false q p)
  · exact absurd hname (recordName_true_ne_false p q)
  · exact ⟨hholder, rfl⟩

theorem recordPlace_ne_draftPlace (p q : Place) (a b : Bool) :
    p.recordPlace a ≠ q.draftPlace b := by
  intro h
  have hlast := p.getLast?_recordName a
  rw [show p.recordName a = _ from (entry.inj h).2, getLast?_append_draftEnding] at hlast
  exact absurd hlast (by decide)

theorem recordPlace_ne_metaDir (p q : Place) (a : Bool) : p.recordPlace a ≠ q.metaDir := by
  intro h
  have hlast := p.getLast?_recordName a
  rw [show p.recordName a = _ from (entry.inj h).2] at hlast
  exact absurd hlast (by decide)

theorem draftPlace_ne_metaDir (p q : Place) (a : Bool) : p.draftPlace a ≠ q.metaDir := by
  intro h
  have hlast := getLast?_append_draftEnding (p.recordName a)
  rw [show (p.recordName a).append draftEnding = _ from (entry.inj h).2] at hlast
  exact absurd hlast (by decide)

/-! ## 3. Keys of places -/

/-- No name on the way to the place has a backslash. -/
def Plain (p : Place) : Prop :=
  ∀ n ∈ p.names, '\\' ∉ n.chars

instance (p : Place) : Decidable p.Plain :=
  inferInstanceAs (Decidable (∀ n ∈ p.names, '\\' ∉ n.chars))

theorem Plain.entry {dir : Place} {name : Name} (hdir : dir.Plain) (hname : '\\' ∉ name.chars) :
    (Place.entry dir name).Plain := by
  intro n hn
  rcases List.mem_append.1 hn with hn | hn
  · exact hdir n hn
  · rw [List.mem_singleton.1 hn]
    exact hname

theorem Plain.getLast? {p : Place} (h : p.Plain) : ∀ n ∈ p.names.getLast?, '\\' ∉ n.chars :=
  fun n hn => h n (List.mem_of_getLast? hn)

theorem Plain.of_mem_upward {p q : Place} (h : p.Plain) (hq : q ∈ p.upward) : q.Plain :=
  fun n hn => h n ((mem_upward_iff.1 hq).subset hn)

theorem Plain.up {p : Place} (h : p.Plain) : p.up.Plain := by
  cases p with
  | root => exact h
  | entry dir name => exact h.of_mem_upward (List.mem_cons_of_mem _ dir.self_mem_upward)

theorem Plain.recordHolder {p : Place} (h : p.Plain) (isDir : Bool) :
    (p.recordHolder isDir).Plain := by
  cases isDir with
  | true => exact h
  | false => exact h.up

theorem Plain.metaDir {p : Place} (h : p.Plain) : p.metaDir.Plain :=
  h.entry (by decide)

theorem Plain.recordName {p : Place} (h : p.Plain) (isDir : Bool) :
    '\\' ∉ (p.recordName isDir).chars := by
  cases isDir with
  | true => exact (by decide : '\\' ∉ dirRecordName.chars)
  | false =>
    cases p with
    | root => decide
    | entry dir name =>
      rw [Place.recordName, Name.chars_append, List.mem_append, not_or]
      exact ⟨h name (by simp [names]), by decide⟩

theorem Plain.recordPlace {p : Place} (h : p.Plain) (isDir : Bool) : (p.recordPlace isDir).Plain :=
  (h.recordHolder isDir).metaDir.entry (h.recordName isDir)

theorem Plain.draftPlace {p : Place} (h : p.Plain) (isDir : Bool) : (p.draftPlace isDir).Plain := by
  refine (h.recordHolder isDir).metaDir.entry ?_
  rw [Name.chars_append, List.mem_append, not_or]
  exact ⟨h.recordName isDir, by decide⟩

end Place

theorem dropSlashes_of_head? {cs : List Char} (h : cs.head? ≠ some '/') : dropSlashes cs = cs := by
  cases cs with
  | nil => rfl
  | cons c cs =>
    rw [dropSlashes]
    rintro d rest he
    exact h (by rw [(List.cons.inj he).1]; rfl)

/-- Without backslashes, the key of a path is its text without the slashes at its end. -/
theorem Path.toList_key {p : Path} (h : '\\' ∉ p.text.toList) :
    p.key.toList = (dropSlashes p.text.toList.reverse).reverse := by
  have hmap : p.text.toList.map (fun c => if c = '\\' then '/' else c) = p.text.toList := by
    rw [List.map_congr_left (g := id), List.map_id]
    intro c hc
    exact if_neg fun e : c = '\\' => h (e ▸ hc)
  rw [Path.key, hmap, String.toList_ofList]

namespace Place

theorem backslash_not_mem_join {pieces : List (List Char)} (h : ∀ piece ∈ pieces, '\\' ∉ piece) :
    '\\' ∉ Text.join ['/'] pieces := by
  induction pieces with
  | nil => simp [join]
  | cons first rest ih =>
    cases rest with
    | nil => exact h first (by simp)
    | cons second rest =>
      have hrest := ih fun piece hp => h piece (List.mem_cons_of_mem _ hp)
      simp only [join, List.mem_append, not_or]
      exact ⟨⟨h first (by simp), by decide⟩, hrest⟩

theorem Plain.not_mem_path {p : Place} (h : p.Plain) : '\\' ∉ p.path.text.toList := by
  rw [toList_path, List.mem_cons, not_or]
  refine ⟨by decide, backslash_not_mem_join fun piece hp => ?_⟩
  obtain ⟨n, hn, rfl⟩ := List.mem_map.1 hp
  exact h n hn

theorem getLast?_path_entry (dir : Place) (name : Name) :
    (entry dir name).path.text.toList.getLast? = name.chars.getLast? := by
  cases hc : name.chars.getLast? with
  | none => exact absurd (List.getLast?_eq_none_iff.1 hc) name.chars_ne_nil
  | some c => rw [toList_path_entry, List.getLast?_append, List.getLast?_cons, hc]; rfl

/-- The key of a place is its canonical path. -/
theorem key_path {p : Place} (h : p.Plain) : p.path.key = p.path.text := by
  refine String.toList_injective ?_
  rw [Path.toList_key h.not_mem_path]
  have hdrop : dropSlashes p.path.text.toList.reverse = p.path.text.toList.reverse := by
    cases p with
    | root => rfl
    | entry dir name =>
      refine dropSlashes_of_head? ?_
      rw [List.head?_reverse, getLast?_path_entry]
      exact name.getLast?_chars_ne
  rw [hdrop, List.reverse_reverse]

/-- Different places have different keys. -/
theorem key_injective {p q : Place} (hp : p.Plain) (hq : q.Plain) (h : p.path.key = q.path.key) :
    p = q := by
  rw [key_path hp, key_path hq] at h
  exact path_injective (Path.ext h)

/-- Different records are kept under different keys. -/
theorem record_key_ne {p q : Place} (hp : p.Plain) (hq : q.Plain) (a b : Bool) (h : p ≠ q ∨ a ≠ b) :
    (p.recordPlace a).path.key ≠ (q.recordPlace b).path.key := by
  intro hkey
  have hsame := recordPlace_injective (key_injective (hp.recordPlace a) (hq.recordPlace b) hkey)
  rcases h with h | h
  · exact h hsame.1
  · exact h hsame.2

theorem draft_key_ne_record {p q : Place} (hp : p.Plain) (hq : q.Plain) (a b : Bool) :
    (p.draftPlace a).path.key ≠ (q.recordPlace b).path.key := fun hkey =>
  q.recordPlace_ne_draftPlace p b a (key_injective (hp.draftPlace a) (hq.recordPlace b) hkey).symm

theorem metaDir_key_ne_record {p q : Place} (hp : p.Plain) (hq : q.Plain) (b : Bool) :
    p.metaDir.path.key ≠ (q.recordPlace b).path.key := fun hkey =>
  q.recordPlace_ne_metaDir p b (key_injective hp.metaDir (hq.recordPlace b) hkey).symm

end Place

/-! ## 4. Paths outside of the directories for metadata -/

namespace Path

/-- A path without a backslash that does not pass through a directory for metadata. -/
def Outside (p : Path) : Prop :=
  '\\' ∉ p.text.toList ∧ .name Layout.metaName ∉ p.parts

instance (p : Path) : Decidable p.Outside :=
  inferInstanceAs (Decidable (_ ∧ _))

/-- Dropping slashes from the end of a text leaves what the text starts with. -/
theorem dropSlashes_eq : ∀ cs : List Char, ∃ n, cs = List.replicate n '/' ++ dropSlashes cs
  | [] => ⟨0, rfl⟩
  | [c] => ⟨0, by simp [dropSlashes]⟩
  | c :: d :: cs => by
    by_cases hc : c = '/'
    · obtain ⟨n, hn⟩ := dropSlashes_eq (d :: cs)
      refine ⟨n + 1, ?_⟩
      rw [hc, dropSlashes, List.replicate_succ, List.cons_append, ← hn]
    · refine ⟨0, ?_⟩
      rw [dropSlashes]
      · rfl
      · rintro c' rest he
        exact absurd (List.cons.inj he).1 hc

/-- A slash at the end of an absolute path adds no part. -/
theorem parts_concat_slash {cs : List Char} :
    parts ⟨String.ofList ('/' :: cs ++ ['/'])⟩ = parts ⟨String.ofList ('/' :: cs)⟩ := by
  have hslash : (mk (String.ofList ('/' :: cs ++ ['/']))).text.toList = '/' :: (cs ++ ['/']) :=
    String.toList_ofList
  have htext : (mk (String.ofList ('/' :: cs))).text.toList = '/' :: cs := String.toList_ofList
  rw [parts_eq hslash, parts_eq htext, splitOn_append_sep, List.filterMap_append, splitOn,
    List.filterMap_cons, ofPiece?_nil, List.filterMap_nil, List.append_nil]

theorem parts_append_slashes {cs : List Char} : ∀ n : Nat,
    parts ⟨String.ofList ('/' :: cs ++ List.replicate n '/')⟩ = parts ⟨String.ofList ('/' :: cs)⟩
  | 0 => by simp
  | n + 1 => by
    rw [List.replicate_succ', ← List.append_assoc, List.cons_append, parts_concat_slash]
    exact parts_append_slashes n

/-- A path and a place with one key have the same parts. -/
theorem parts_eq_of_key_eq {p : Path} {q : Place} (h : '\\' ∉ p.text.toList)
    (hkey : p.key = q.path.text) : p.parts = q.path.parts := by
  obtain ⟨n, hn⟩ := dropSlashes_eq p.text.toList.reverse
  have hrev := congrArg List.reverse hn
  rw [List.reverse_reverse, List.reverse_append, List.reverse_replicate, ← toList_key h, hkey,
    Place.toList_path] at hrev
  have hp : p = ⟨String.ofList ('/' :: Text.join ['/'] q.pieces ++ List.replicate n '/')⟩ := by
    rw [← hrev, String.ofList_toList]
  have hq : q.path = ⟨String.ofList ('/' :: Text.join ['/'] q.pieces)⟩ := by
    rw [← Place.toList_path, String.ofList_toList]
  rw [hp, hq, parts_append_slashes]

/-- What is in a directory for metadata is not at a path outside of all of them. -/
theorem Outside.key_ne {p : Path} (h : p.Outside) {q : Place} (hq : Layout.metaName ∈ q.names) :
    p.key ≠ q.path.text := by
  intro hkey
  have hparts := parts_eq_of_key_eq h.1 hkey
  rw [Place.parts_path] at hparts
  refine h.2 ?_
  rw [hparts]
  exact List.mem_cons_of_mem _ (List.mem_map_of_mem hq)

end Path

/-- A path that ends with the name of a directory for metadata. -/
def Path.EndsInMeta (p : Path) : Prop :=
  "/.meta".toList <:+ p.text.toList

instance (p : Path) : Decidable p.EndsInMeta :=
  inferInstanceAs (Decidable (_ <:+ _))

/-- Such a path is not that of a record, even with backslashes in it. -/
theorem Path.EndsInMeta.key_ne_record {p : Path} (h : p.EndsInMeta) {q : Place} (hq : q.Plain)
    {isDir : Bool} : p.key ≠ (q.recordPlace isDir).path.key := by
  intro hkey
  obtain ⟨front, hfront⟩ := h
  have hlast : p.key.toList.getLast? = some 'a' := by
    have hkeys : p.text.toList = (front ++ ['/', '.', 'm', 'e', 't']) ++ ['a'] := by
      rw [← hfront]
      simp
    rw [Path.key, hkeys, List.map_append, List.reverse_append, dropSlashes_of_head? (by simp)]
    simp
  rw [hkey, Place.key_path (hq.recordPlace isDir), Place.recordPlace, Place.getLast?_path_entry,
    Place.getLast?_recordName] at hlast
  exact absurd hlast (by decide)

theorem Place.endsInMeta_metaDir (p : Place) : p.metaDir.path.EndsInMeta :=
  ⟨p.stem, (Place.toList_path_entry p Layout.metaName).symm⟩

theorem Place.metaName_mem_metaDir (p : Place) : Layout.metaName ∈ p.metaDir.names := by
  simp [metaDir, names]

/-- All that saving a record asks for is asked for in a directory for metadata. -/
theorem Place.metaName_mem_below (p : Place) (name : Name) :
    Layout.metaName ∈ (Place.entry p.metaDir name).names :=
  List.mem_append_left _ p.metaName_mem_metaDir

theorem Path.Outside.key_ne_record {p : Path} (h : p.Outside) {q : Place} (hq : q.Plain)
    {isDir : Bool} : p.key ≠ (q.recordPlace isDir).path.key := by
  rw [Place.key_path (hq.recordPlace isDir)]
  exact h.key_ne (Place.metaName_mem_below _ _)

end ShowTree
