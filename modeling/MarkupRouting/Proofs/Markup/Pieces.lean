import Mathlib.Tactic
import MarkupRouting.Markup.Document

/-!
# Documents in pieces

Whatever the form in which a document is given and however much of it is read at a time, its pieces
make up its bytes.

* **Source.Contains**, **Holds** — the forms in which bytes are given, and those in which a document
  is.
* **Source.Admits** — so much of a source can be asked for at a time.
* **Document.flatten_pieces**, **flatten_textPieces** — nothing is lost between two pieces.
* **Document.chunks_of_contains**, **chunks_of_holds** — the pieces of a source make up its bytes.
-/

namespace MarkupRouting

namespace Document

variable {α : Type}

/-- The pieces make up the list. -/
theorem flatten_pieces (size : Nat) (xs : List α) : (pieces size xs).flatten = xs := by
  fun_induction pieces size xs with
  | case1 => rfl
  | case2 x rest ih => rw [List.flatten_cons, ih, List.cons_append, List.take_append_drop]

/-- No piece is empty. -/
theorem nil_notMem_pieces (size : Nat) (xs : List α) : [] ∉ pieces size xs := by
  fun_induction pieces size xs with
  | case1 => exact List.not_mem_nil
  | case2 x rest ih =>
      rw [List.mem_cons, not_or]
      exact ⟨(List.cons_ne_nil _ _).symm, ih⟩

/-- A list that is no longer than a piece may be is one piece. -/
theorem pieces_of_length_le {size : Nat} {xs : List α} (hne : xs ≠ []) (h : xs.length ≤ size) :
    pieces size xs = [xs] := by
  cases xs with
  | nil => exact absurd rfl hne
  | cons x rest =>
      have hrest : rest.length ≤ size - 1 := Nat.le_sub_one_of_lt h
      rw [pieces, List.take_of_length_le hrest, List.drop_of_length_le hrest, pieces]

/-- A character's bytes stand in front of those of the others. -/
theorem encode_cons (c : Char) (cs : List Char) :
    encode (c :: cs) = String.utf8EncodeChar c ++ encode cs := rfl

/-- Texts put together have their bytes put together. -/
theorem encode_append (cs ds : List Char) : encode (cs ++ ds) = encode cs ++ encode ds :=
  List.flatMap_append

/-- The bytes of pieces are pieces of the bytes: pieces do not end inside characters. -/
theorem encode_flatten (pieces : List (List Char)) :
    (pieces.map encode).flatten = encode pieces.flatten := by
  induction pieces with
  | nil => rfl
  | cons piece rest ih =>
      rw [List.map_cons, List.flatten_cons, List.flatten_cons, ih, encode_append]

/-- Only of no characters there are no bytes. -/
theorem encode_eq_nil {cs : List Char} (h : encode cs = []) : cs = [] := by
  cases cs with
  | nil => rfl
  | cons c rest =>
      rw [encode_cons, List.append_eq_nil_iff] at h
      exact absurd h.1 String.utf8EncodeChar_ne_nil

/-- A text cut between its characters is not cut inside one: the pieces make up its bytes. -/
theorem flatten_textPieces (size : Nat) (s : String) :
    (textPieces size s).flatten = encode s.toList := by
  rw [textPieces, encode_flatten, flatten_pieces]

/-- No piece of a text is empty, since a piece has a character and a character has a byte. -/
theorem nil_notMem_textPieces (size : Nat) (s : String) : [] ∉ textPieces size s := by
  intro hmem
  obtain ⟨piece, hpiece, hnone⟩ := List.mem_map.mp hmem
  rw [encode_eq_nil hnone] at hpiece
  exact nil_notMem_pieces size s.toList hpiece

end Document

/-! ### Sources -/

namespace Source

/-- The source is something to be read, and these are its bytes: for a text those of its characters
in UTF-8, for a file and for bytes what they hold, whatever that is. -/
inductive Contains : List UInt8 → Source → Prop where
  | text (s : String) : Contains (Document.encode s.toList) (.text s)
  | bytes (bytes : List UInt8) : Contains bytes (.bytes bytes)
  | file (name : String) (f : File) : Contains f.contents (.file name (some f))
  | byteStream (f : File) : Contains f.contents (.byteStream f)
  | textStream (s : String) (reach : Reach) :
      Contains (Document.encode s.toList) (.textStream s reach)

/-- The source is the document in one of the forms in which documents are given. -/
inductive Holds (doc : String) : Source → Prop where
  | text : Holds doc (.text doc)
  | bytes : Holds doc (.bytes (Document.encode doc.toList))
  | file (name : String) (reach : Reach) :
      Holds doc (.file name (some ⟨Document.encode doc.toList, reach⟩))
  | byteStream (reach : Reach) : Holds doc (.byteStream ⟨Document.encode doc.toList, reach⟩)
  | textStream (reach : Reach) : Holds doc (.textStream doc reach)

/-- A document in any of its forms is its bytes. -/
theorem Holds.contains {doc : String} {s : Source} (h : s.Holds doc) :
    s.Contains (Document.encode doc.toList) := by
  cases h with
  | text => exact .text doc
  | bytes => exact .bytes _
  | file name reach => exact .file name ⟨_, reach⟩
  | byteStream reach => exact .byteStream ⟨_, reach⟩
  | textStream reach => exact .textStream doc reach

/-- So much of the source can be asked for at a time: an integer from one up, with which the source
does not fail. Of an open file this is what its own reading promises; of a document in memory it is
every such integer. -/
def Admits (s : Source) (size : Value) : Prop :=
  ∃ n : Int, size.toInt? = some n ∧ 1 ≤ n ∧ s.reach n.toNat = none

end Source

namespace Document

variable {doc : String} {s : Source} {size : Value}

/-- A size that can be asked for is no size at which sources are refused. -/
theorem atMostZero_of_admits (h : s.Admits size) : size.atMostZero? = some false := by
  obtain ⟨n, hn, hpos, -⟩ := h
  cases size with
  | bool b =>
      cases b with
      | true => rfl
      | false =>
          obtain rfl : (0 : Int) = n := Option.some.inj hn
          omega
  | int m =>
      obtain rfl := Option.some.inj hn
      rw [Value.atMostZero?, decide_eq_false (by omega)]
  | null | double | text | mode | list | record => cases hn

/-- Whatever can be asked for is the size of the pieces. -/
theorem pieceSize_of_admits (h : s.Admits size) : ∃ n, pieceSize s size = .ok n := by
  obtain ⟨n, hn, -, hreach⟩ := h
  exact ⟨n.toNat, by rw [pieceSize, hn]; dsimp only; rw [hreach]⟩

/-- **The pieces of a source make up its bytes, and none is empty.** -/
theorem chunks_of_contains {bytes : List UInt8} (hs : s.Contains bytes) (hsize : s.Admits size) :
    ∃ cs, chunks size s = .ok cs ∧ cs.flatten = bytes ∧ [] ∉ cs := by
  obtain ⟨n, hn⟩ := pieceSize_of_admits hsize
  have hbytes : ∀ bs : List UInt8, (pieces n bs).flatten = bs ∧ [] ∉ pieces n bs := fun bs =>
    ⟨flatten_pieces n bs, nil_notMem_pieces n bs⟩
  have htext : ∀ doc, (textPieces n doc).flatten = encode doc.toList ∧ [] ∉ textPieces n doc :=
    fun doc => ⟨flatten_textPieces n doc, nil_notMem_textPieces n doc⟩
  cases hs with
  | text doc => exact ⟨textPieces n doc, by rw [chunks, hn]; rfl, htext doc⟩
  | textStream doc reach => exact ⟨textPieces n doc, by rw [chunks, hn]; rfl, htext doc⟩
  | bytes => exact ⟨pieces n bytes, by rw [chunks, hn]; rfl, hbytes bytes⟩
  | file name f => exact ⟨pieces n f.contents, by rw [chunks, hn]; rfl, hbytes f.contents⟩
  | byteStream f => exact ⟨pieces n f.contents, by rw [chunks, hn]; rfl, hbytes f.contents⟩

/-- The pieces of a source make up the bytes of its document. -/
theorem chunks_of_holds (hs : s.Holds doc) (hsize : s.Admits size) :
    ∃ cs, chunks size s = .ok cs ∧ cs.flatten = encode doc.toList ∧ [] ∉ cs :=
  chunks_of_contains hs.contains hsize

/-- A text that is no longer than a piece may be is one piece. -/
theorem chunks_of_length_le {n : Nat} (hne : doc.toList ≠ []) (h : doc.toList.length ≤ n) :
    chunks (.int n) (.text doc) = .ok [encode doc.toList] := by
  have hsize : pieceSize (.text doc) (.int n) = .ok n := rfl
  rw [chunks, hsize, Except.map, textPieces, pieces_of_length_le hne h]
  rfl

end Document

end MarkupRouting
