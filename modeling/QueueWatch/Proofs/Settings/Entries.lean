import Mathlib.Data.List.Forall2
import QueueWatch.Settings
import QueueWatch.Proofs.Socket.Grammar

/-!
# The entries of a list with commas

A value that is a list is cut at its commas (`CutsInto`), and each piece that is not blank has an
entry in it, with any blanks around (`IsPadded`, `Names`). Every value has its entries in one way,
and `Settings.entries` gives them (`hasEntries_iff`).

A list of specs may be written with blanks around each spec and with blank pieces anywhere
(`Writes`). Neither a spec nor a blank has a comma in it, so the entries of such a value are the
written forms of the specs, in their order (`Writes.hasEntries`).
-/

namespace QueueWatch.Settings

open Text (AllBlank Trimmed)

/-! ## The grammar -/

/-- Pieces are what stands between the commas of a value. -/
structure CutsInto (value : String) (pieces : List (List Char)) : Prop where
  joined : value.toList = [','].intercalate pieces
  apart : ∀ piece ∈ pieces, ',' ∉ piece
  ne_nil : pieces ≠ []

/-- A piece is an entry with blanks around it. -/
structure IsPadded (piece : List Char) (entry : String) : Prop where
  blanks : ∃ left right, piece = left ++ entry.toList ++ right ∧ AllBlank left ∧ AllBlank right
  trimmed : Trimmed entry.toList
  ne_empty : entry ≠ ""

/-- The entries in pieces, in their order. A blank piece has none. -/
inductive Names : List (List Char) → List String → Prop
  | nil : Names [] []
  | blank {piece pieces entries} (hpiece : AllBlank piece) (h : Names pieces entries) :
      Names (piece :: pieces) entries
  | entry {piece entry pieces entries} (hpiece : IsPadded piece entry) (h : Names pieces entries) :
      Names (piece :: pieces) (entry :: entries)

def HasEntries (value : String) (entries : List String) : Prop :=
  ∃ pieces, CutsInto value pieces ∧ Names pieces entries

/-- Pieces in which specs are written, with any blanks around them and any blank pieces among
them. -/
inductive Writes : List SocketSpec → List (List Char) → Prop
  | nil : Writes [] []
  | blank {specs piece pieces} (hpiece : AllBlank piece) (h : Writes specs pieces) :
      Writes specs (piece :: pieces)
  | spec {spec ip specs left right pieces} (hhost : spec.host = .v4 ip) (hleft : AllBlank left)
      (hright : AllBlank right) (h : Writes specs pieces) :
      Writes (spec :: specs) ((left ++ spec.render.toList ++ right) :: pieces)

/-! ## Reading a list -/

theorem cutsInto_iff {value : String} {pieces : List (List Char)} :
    CutsInto value pieces ↔ Text.pieces ',' value.toList = pieces := by
  constructor
  · intro h
    rw [Text.pieces_eq_splitOn, h.joined, List.splitOn_intercalate ',' h.apart h.ne_nil]
  · rintro rfl
    rw [Text.pieces_eq_splitOn]
    exact ⟨(List.intercalate_splitOn ',').symm, fun _ => not_mem_of_mem_splitOn,
      List.splitOn_ne_nil ',' _⟩

theorem isPadded_iff {piece : List Char} {entry : String} :
    IsPadded piece entry ↔ Text.trim piece = entry.toList ∧ entry ≠ "" := by
  rw [Text.trim_eq_iff]
  constructor
  · intro h
    rcases h.blanks with ⟨left, right, hpiece, hleft, hright⟩
    exact ⟨⟨left, right, hpiece, hleft, hright, h.trimmed⟩, h.ne_empty⟩
  · rintro ⟨⟨left, right, hpiece, hleft, hright, htrimmed⟩, hne⟩
    exact ⟨⟨left, right, hpiece, hleft, hright⟩, htrimmed, hne⟩

theorem IsPadded.ofList_trim {piece : List Char} {entry : String} (h : IsPadded piece entry) :
    String.ofList (Text.trim piece) = entry := by
  rw [(isPadded_iff.1 h).1, String.ofList_toList]

theorem IsPadded.trim_ne_nil {piece : List Char} {entry : String} (h : IsPadded piece entry) :
    Text.trim piece ≠ [] := by
  rcases isPadded_iff.1 h with ⟨htrim, hne⟩
  rw [htrim]
  exact fun hempty => hne (String.toList_eq_nil_iff.1 hempty)

theorem allBlank_iff {piece : List Char} : AllBlank piece ↔ Text.trim piece = [] := by
  have htrimmed : Trimmed [] := ⟨by simp, by simp⟩
  constructor
  · intro h
    have htrim := Text.trim_append h Text.allBlank_nil htrimmed
    rwa [List.append_nil, List.append_nil] at htrim
  · intro h
    rcases Text.trim_eq_iff.1 h with ⟨left, right, rfl, hleft, hright, _⟩
    rw [List.append_nil]
    exact List.forall_mem_append.2 ⟨hleft, hright⟩

/-- A piece that is not blank is an entry with blanks around it. -/
theorem isPadded_trim {piece : List Char} (h : Text.trim piece ≠ []) :
    IsPadded piece (String.ofList (Text.trim piece)) :=
  isPadded_iff.2 ⟨String.toList_ofList.symm, fun hempty => h (String.ofList_eq_empty_iff.1 hempty)⟩

theorem names_iff {pieces : List (List Char)} {entries : List String} :
    Names pieces entries ↔
      ((pieces.map Text.trim).filter fun entry => entry ≠ []).map String.ofList = entries := by
  induction pieces generalizing entries with
  | nil =>
      constructor
      · intro h
        cases h
        rfl
      · rintro rfl
        exact .nil
  | cons piece pieces ih =>
      rw [List.map_cons]
      by_cases hblank : Text.trim piece = []
      · rw [List.filter_cons_of_neg (by simp [hblank]), ← ih]
        constructor
        · intro h
          cases h with
          | blank _ h => exact h
          | entry hpiece _ => exact absurd hblank hpiece.trim_ne_nil
        · exact .blank (allBlank_iff.2 hblank)
      · rw [List.filter_cons_of_pos (by simp [hblank]), List.map_cons]
        constructor
        · intro h
          cases h with
          | blank hpiece _ => exact absurd (allBlank_iff.1 hpiece) hblank
          | entry hpiece h => rw [hpiece.ofList_trim, ih.1 h]
        · rintro rfl
          exact .entry (isPadded_trim hblank) (ih.2 rfl)

/-- The entries of a value are the texts that are read from it. -/
theorem hasEntries_iff {value : String} {texts : List String} :
    HasEntries value texts ↔ (entries value).map String.ofList = texts := by
  simp only [HasEntries, cutsInto_iff, names_iff, exists_eq_left', entries]

/-! ## Writing a list -/

section

variable {spec : SocketSpec} {ip : Ipv4} (hhost : spec.host = .v4 ip)
include hhost

theorem exists_parts_of_v4 :
    ∃ p : SpecParts, p.text = spec.render.toList ∧ p.Reads spec := by
  rcases spec with ⟨host, port, inode⟩
  cases hhost
  exact ⟨_, SocketSpec.text_parts ip port inode, SocketSpec.reads_parts ip port inode⟩

theorem comma_not_mem_render : ',' ∉ spec.render.toList := by
  rcases exists_parts_of_v4 hhost with ⟨p, htext, hreads⟩
  rw [← htext]
  intro hcomma
  exact absurd (hreads.mem_text hcomma) (by decide)

/-- The written form of a spec is an entry, whatever blanks are around it. -/
theorem isPadded_render {left right : List Char} (hleft : AllBlank left) (hright : AllBlank right) :
    IsPadded (left ++ spec.render.toList ++ right) spec.render where
  blanks := ⟨left, right, rfl, hleft, hright⟩
  trimmed := by
    rcases exists_parts_of_v4 hhost with ⟨p, htext, hreads⟩
    have hs : spec.render.toList = [] ++ p.text ++ [] := by simp [htext]
    rw [← htext]
    exact (hreads.isCutFrom hs Text.allBlank_nil Text.allBlank_nil).trimmed
  ne_empty := by
    intro hempty
    have hparse : SocketSpec.parse "" = .ok spec :=
      SocketSpec.parse_of_toList_eq hhost (by rw [hempty]; rfl) Text.allBlank_nil Text.allBlank_nil
    have herror : SocketSpec.parse "" = .error ⟨"", .host⟩ := rfl
    cases hparse.symm.trans herror

end

theorem comma_not_mem_of_allBlank {piece : List Char} (h : AllBlank piece) : ',' ∉ piece := by
  intro hcomma
  cases h ',' hcomma

namespace Writes

variable {specs : List SocketSpec} {pieces : List (List Char)}

theorem names (h : Writes specs pieces) : Names pieces (specs.map SocketSpec.render) := by
  induction h with
  | nil => exact .nil
  | blank hpiece _ ih => exact .blank hpiece ih
  | spec hhost hleft hright _ ih => exact .entry (isPadded_render hhost hleft hright) ih

theorem comma_not_mem (h : Writes specs pieces) : ∀ piece ∈ pieces, ',' ∉ piece := by
  induction h with
  | nil => exact List.forall_mem_nil _
  | blank hpiece _ ih => exact List.forall_mem_cons.2 ⟨comma_not_mem_of_allBlank hpiece, ih⟩
  | spec hhost hleft hright _ ih =>
      refine List.forall_mem_cons.2 ⟨?_, ih⟩
      rw [List.mem_append, List.mem_append]
      rintro ((h | h) | h)
      · exact comma_not_mem_of_allBlank hleft h
      · exact comma_not_mem_render hhost h
      · exact comma_not_mem_of_allBlank hright h

theorem hasEntries (h : Writes specs pieces) {value : String}
    (hvalue : value.toList = [','].intercalate pieces) :
    HasEntries value (specs.map SocketSpec.render) := by
  by_cases hpieces : pieces = []
  · -- nothing is written, which is what one blank piece is
    subst hpieces
    cases h
    exact ⟨[[]], ⟨hvalue, by simp, by simp⟩, .blank Text.allBlank_nil .nil⟩
  · exact ⟨pieces, ⟨hvalue, h.comma_not_mem, hpieces⟩, h.names⟩

/-- What is written is read. -/
theorem parse (h : Writes specs pieces) :
    List.Forall₂ (fun entry spec => SocketSpec.parse entry = .ok spec)
      (specs.map SocketSpec.render) specs := by
  rw [List.forall₂_map_left_iff, List.forall₂_same]
  induction h with
  | nil => exact List.forall_mem_nil _
  | blank _ _ ih => exact ih
  | spec hhost _ _ _ ih =>
      exact List.forall_mem_cons.2
        ⟨SocketSpec.parse_of_toList_eq hhost (by simp) Text.allBlank_nil Text.allBlank_nil, ih⟩

end Writes

end QueueWatch.Settings
