import Mathlib.Data.Nat.PSub
import TypedImp.Proofs.Tiling

/-!
# Texts as bytes

A text in memory is a row of bytes, and a part of it is given by two offsets.  Such a part is a text
again only if both offsets lie between two characters, so taking it may fail.  In this library texts
are lists of characters and nothing of the kind can happen; here the operations on bytes are defined
with their failures and compared with the operations on characters.

## Comments

The end of a block comment is looked for byte by byte, although the comment may hold characters of
several bytes.  This is sound because a byte of such a character is never that of a slash or of an
asterisk.

* `cutAt?`, `slice?`, `slice?_eq_some_iff`: parts of a text by offsets, if the offsets lie between
  characters.
* `encode`, `toNat_of_mem_utf8EncodeChar`: the bytes of a text.
* `commentScan?`, `commentScan?_encode`: the end of a comment, found byte by byte.
-/

namespace TypedImp

/-! ## Parts of a text -/

/-- Cuts a text behind its first `n` bytes.  This fails behind the end of the text and inside of a
character. -/
def cutAt? : List Char → (n : Nat) → Option (List Char × List Char)
  | cs, 0 => some ([], cs)
  | [], _ + 1 => none
  | c :: cs, n + 1 =>
    if c.utf8Size ≤ n + 1 then
      (cutAt? cs (n + 1 - c.utf8Size)).map fun (before, after) => (c :: before, after)
    else none

theorem cutAt?_append (before after : List Char) :
    cutAt? (before ++ after) (byteCount before) = some (before, after) := by
  induction before with
  | nil => rw [List.nil_append, byteCount, cutAt?.eq_def]
  | cons c before ih =>
    have hpos := Char.utf8Size_pos c
    obtain ⟨n, hn⟩ : ∃ n, byteCount (c :: before) = n + 1 :=
      ⟨byteCount (c :: before) - 1, by rw [byteCount]; omega⟩
    have hrest : n + 1 - c.utf8Size = byteCount before := by
      rw [← hn, byteCount]
      omega
    have hle : c.utf8Size ≤ n + 1 := by
      rw [← hn, byteCount]
      omega
    rw [hn, List.cons_append, cutAt?, if_pos hle, hrest, ih]
    rfl

/-- A text is cut exactly between its characters. -/
theorem cutAt?_eq_some_iff {cs before after : List Char} {n : Nat} :
    cutAt? cs n = some (before, after) ↔ cs = before ++ after ∧ byteCount before = n := by
  constructor
  · intro h
    fun_induction cutAt? cs n generalizing before after with
    | case1 cs =>
      cases h
      exact ⟨rfl, rfl⟩
    | case2 n => cases h
    | case3 c cs n hle ih =>
      obtain ⟨⟨before', after'⟩, hcut, heq⟩ := Option.map_eq_some_iff.mp h
      cases heq
      obtain ⟨rfl, hcount⟩ := ih hcut
      refine ⟨rfl, ?_⟩
      rw [byteCount, hcount]
      omega
    | case4 c cs n hnot => cases h
  · rintro ⟨rfl, rfl⟩
    exact cutAt?_append before after

/-- The part of a text between two offsets.  This fails if they are not in order, if one of them
lies inside of a character, or behind the end. -/
def slice? (source : List Char) (start stop : Nat) : Option (List Char) := do
  guard (start ≤ stop)
  let (before, _) ← cutAt? source stop
  let (_, text) ← cutAt? before start
  return text

/-- A part of a text is taken exactly if it stands between the two offsets. -/
theorem slice?_eq_some_iff {source text : List Char} {start stop : Nat} :
    slice? source start stop = some text ↔
      ∃ pre rest, source = pre ++ (text ++ rest) ∧ byteCount pre = start ∧
        byteCount pre + byteCount text = stop := by
  constructor
  · intro h
    obtain ⟨-, -, h⟩ := Option.bind_eq_some_iff.mp h
    obtain ⟨⟨before, rest⟩, hstop, h⟩ := Option.bind_eq_some_iff.mp h
    obtain ⟨⟨pre, text'⟩, hstart, h⟩ := Option.bind_eq_some_iff.mp h
    cases h
    obtain ⟨rfl, rfl⟩ := cutAt?_eq_some_iff.mp hstop
    obtain ⟨rfl, rfl⟩ := cutAt?_eq_some_iff.mp hstart
    exact ⟨pre, rest, List.append_assoc pre text rest, rfl, (byteCount_append pre text).symm⟩
  · rintro ⟨pre, rest, rfl, rfl, rfl⟩
    have hstop : cutAt? (pre ++ (text ++ rest)) (byteCount pre + byteCount text) =
        some (pre ++ text, rest) :=
      cutAt?_eq_some_iff.mpr ⟨(List.append_assoc pre text rest).symm, byteCount_append pre text⟩
    simp [slice?, hstop, cutAt?_append, guard]

theorem slice?_append (pre text rest : List Char) :
    slice? (pre ++ (text ++ rest)) (byteCount pre) (byteCount pre + byteCount text) =
      some text :=
  slice?_eq_some_iff.mpr ⟨pre, rest, rfl, rfl, rfl⟩

/-- The part from an offset to the end of the text. -/
theorem slice?_append_end (pre rest : List Char) :
    slice? (pre ++ rest) (byteCount pre) (byteCount (pre ++ rest)) = some rest := by
  have hslice := slice?_append pre rest []
  rwa [List.append_nil, ← byteCount_append] at hslice

/-- A part from the beginning of the text. -/
theorem slice?_zero (text rest : List Char) :
    slice? (text ++ rest) 0 (byteCount text) = some text := by
  have hslice := slice?_append [] text rest
  rwa [byteCount, Nat.zero_add] at hslice

/-! ## The bytes of a text -/

/-- The bytes of a text. -/
def encode (cs : List Char) : List UInt8 := cs.flatMap String.utf8EncodeChar

theorem encode_cons (c : Char) (cs : List Char) :
    encode (c :: cs) = String.utf8EncodeChar c ++ encode cs := List.flatMap_cons

theorem length_encode (cs : List Char) : (encode cs).length = byteCount cs := by
  induction cs with
  | nil => rfl
  | cons c cs ih =>
    rw [encode_cons, List.length_append, ih, String.length_utf8EncodeChar, byteCount]

/-- The small bytes stand only for themselves. -/
theorem toNat_of_mem_utf8EncodeChar {c : Char} {b : UInt8} (h : b ∈ String.utf8EncodeChar c)
    (hb : b.toNat < 128) : c.val.toNat = b.toNat := by
  unfold String.utf8EncodeChar at h
  dsimp only at h
  split at h
  · rw [List.mem_singleton] at h
    rw [h, UInt8.toNat_ofNat']
    omega
  · exfalso
    split at h
    · simp only [List.mem_cons, List.not_mem_nil, or_false] at h
      rcases h with rfl | rfl <;> rw [UInt8.toNat_ofNat'] at hb <;> omega
    · split at h
      · simp only [List.mem_cons, List.not_mem_nil, or_false] at h
        rcases h with rfl | rfl | rfl <;> rw [UInt8.toNat_ofNat'] at hb <;> omega
      · simp only [List.mem_cons, List.not_mem_nil, or_false] at h
        rcases h with rfl | rfl | rfl | rfl <;> rw [UInt8.toNat_ofNat'] at hb <;> omega

/-- The byte of a slash. -/
def slash : UInt8 := 0x2F

/-- The byte of an asterisk. -/
def star : UInt8 := 0x2A

/-- A slash stands for a slash, also inside of a text with characters of several bytes. -/
theorem eq_of_slash_mem {c : Char} (h : slash ∈ String.utf8EncodeChar c) : c = '/' :=
  Char.ext (UInt32.toNat_inj.mp (toNat_of_mem_utf8EncodeChar h (by decide)))

/-- An asterisk stands for an asterisk. -/
theorem eq_of_star_mem {c : Char} (h : star ∈ String.utf8EncodeChar c) : c = '*' :=
  Char.ext (UInt32.toNat_inj.mp (toNat_of_mem_utf8EncodeChar h (by decide)))

theorem encode_slash (cs : List Char) : encode ('/' :: cs) = slash :: encode cs := rfl

theorem encode_star (cs : List Char) : encode ('*' :: cs) = star :: encode cs := rfl

/-- The first byte of a text belongs to its first character. -/
theorem head?_of_head?_encode {cs : List Char} {b : UInt8} (h : (encode cs).head? = some b) :
    ∃ c, cs.head? = some c ∧ b ∈ String.utf8EncodeChar c := by
  cases cs with
  | nil => cases h
  | cons c cs =>
    refine ⟨c, rfl, ?_⟩
    rw [encode_cons, List.head?_append_of_ne_nil _ (String.utf8EncodeChar_ne_nil)] at h
    exact List.mem_of_mem_head? h

/-! ## The end of a comment -/

/-- How many bytes it takes to close a comment of which `depth` levels are open, if it is closed at
all.  The counter of levels is a number that must not go below zero, and closing a level of none
fails. -/
def commentScan? : (depth : Nat) → List UInt8 → Option (Option Nat)
  | depth, b :: b' :: bs =>
    if b = slash ∧ b' = star then (commentScan? (depth + 1) bs).map (Option.map (2 + ·))
    else if b = star ∧ b' = slash then
      match depth.ppred with
      | none => none
      | some 0 => some (some 2)
      | some (depth + 1) => (commentScan? (depth + 1) bs).map (Option.map (2 + ·))
    else (commentScan? depth (b' :: bs)).map (Option.map (1 + ·))
  | _, [_] => some none
  | _, [] => some none

/-- A byte that begins no opening and no closing is passed over. -/
theorem commentScan?_cons {b : UInt8} {bs : List UInt8} (hopen : b = slash → bs.head? ≠ some star)
    (hclose : b = star → bs.head? ≠ some slash) (depth : Nat) :
    commentScan? depth (b :: bs) = (commentScan? depth bs).map (Option.map (1 + ·)) := by
  cases bs with
  | nil => rfl
  | cons b' bs =>
    have hnotOpen : ¬ (b = slash ∧ b' = star) := fun ⟨h, h'⟩ => hopen h (by rw [h']; rfl)
    have hnotClose : ¬ (b = star ∧ b' = slash) := fun ⟨h, h'⟩ => hclose h (by rw [h']; rfl)
    rw [commentScan?, if_neg hnotOpen, if_neg hnotClose]

/-- Bytes that are neither slashes nor asterisks are passed over. -/
theorem commentScan?_append {run : List UInt8} (h : ∀ b ∈ run, b ≠ slash ∧ b ≠ star)
    (depth : Nat) (bs : List UInt8) :
    commentScan? depth (run ++ bs) =
      (commentScan? depth bs).map (Option.map (run.length + ·)) := by
  induction run with
  | nil =>
    simp
  | cons b run ih =>
    obtain ⟨hb, hrun⟩ := List.forall_mem_cons.mp h
    rw [List.cons_append, commentScan?_cons (fun he => absurd he hb.1) (fun he => absurd he hb.2),
      ih hrun, Option.map_map]
    congr 1
    funext width?
    cases width? with
    | none => rfl
    | some width => simp only [Function.comp, Option.map_some, List.length_cons]; congr 1; omega

/-- A character that begins no opening and no closing is passed over. -/
theorem commentScan?_char {c : Char} {cs : List Char} (hopen : c = '/' → cs.head? ≠ some '*')
    (hclose : c = '*' → cs.head? ≠ some '/') (depth : Nat) :
    commentScan? depth (encode (c :: cs)) =
      (commentScan? depth (encode cs)).map (Option.map (c.utf8Size + ·)) := by
  by_cases hslash : c = '/'
  · subst hslash
    rw [encode_slash]
    refine commentScan?_cons (fun _ hhead => ?_) (fun he => absurd he (by decide)) depth
    obtain ⟨d, hd, hmem⟩ := head?_of_head?_encode hhead
    exact hopen rfl (by rw [hd, eq_of_star_mem hmem])
  · by_cases hstar : c = '*'
    · subst hstar
      rw [encode_star]
      refine commentScan?_cons (fun he => absurd he (by decide)) (fun _ hhead => ?_) depth
      obtain ⟨d, hd, hmem⟩ := head?_of_head?_encode hhead
      exact hclose rfl (by rw [hd, eq_of_slash_mem hmem])
    · rw [encode_cons, commentScan?_append, String.length_utf8EncodeChar]
      intro b hb
      refine ⟨?_, ?_⟩
      · rintro rfl
        exact hslash (eq_of_slash_mem hb)
      · rintro rfl
        exact hstar (eq_of_star_mem hb)

/-- A width behind `text`, counted in characters and in bytes. -/
theorem map_byteCount_take (text cs : List Char) (width? : Option Nat) :
    (width?.map fun width => byteCount (cs.take width)).map (byteCount text + ·) =
      (width?.map (text.length + ·)).map fun width => byteCount ((text ++ cs).take width) := by
  cases width? with
  | none => rfl
  | some width =>
    simp only [Option.map_some, List.take_length_add_append, byteCount_append]

/-- **The end of a comment is found byte by byte**, and the counter of levels does not go below zero
on the way. -/
theorem commentScan?_encode (depth : Nat) (cs : List Char) :
    commentScan? (depth + 1) (encode cs) =
      some ((commentWidth? depth cs).map fun width => byteCount (cs.take width)) := by
  fun_induction commentWidth? depth cs with
  | case1 depth cs ih =>
    rw [encode_slash, encode_star, commentScan?, if_pos ⟨rfl, rfl⟩, ih]
    exact congrArg some (map_byteCount_take ['/', '*'] cs _)
  | case2 cs => rfl
  | case3 depth cs ih =>
    rw [encode_star, encode_slash, commentScan?, if_neg (by decide), if_pos ⟨rfl, rfl⟩,
      Nat.ppred_succ]
    dsimp only
    rw [ih]
    exact congrArg some (map_byteCount_take ['*', '/'] cs _)
  | case4 depth c cs hopen hclose hclose' ih =>
    have hwidth : byteCount [c] = c.utf8Size := rfl
    rw [commentScan?_char ?_ ?_, ih, ← hwidth]
    · exact congrArg some (map_byteCount_take [c] cs _)
    · rintro rfl hhead
      obtain ⟨rest, rfl⟩ : ∃ rest, cs = '*' :: rest := ⟨cs.tail, (List.cons_head?_tail hhead).symm⟩
      exact hopen rest rfl rfl
    · rintro rfl hhead
      obtain ⟨rest, rfl⟩ : ∃ rest, cs = '/' :: rest := ⟨cs.tail, (List.cons_head?_tail hhead).symm⟩
      cases depth with
      | zero => exact hclose rest rfl rfl rfl
      | succ depth => exact hclose' depth rest rfl rfl rfl
  | case5 => rfl

end TypedImp
