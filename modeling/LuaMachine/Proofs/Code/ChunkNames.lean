import LuaMachine.Code.ChunkName
import Mathlib.Data.List.TakeWhile
import Mathlib.Data.String.Basic

/-!
# What short forms show

The short form of a chunk name is meant to take less than 60 bytes.  For a file name it does: a long
one is replaced by the longest of its ends that fits behind dots.  Literal names and source text,
however, are cut after a number of characters, so that the bound holds for characters, and for bytes
only where the characters that are left take no more bytes than there is room for.  Likewise the
dots at the end of source text are set by the size in bytes of a line that is then cut by
characters, and may stand although nothing is missing.

## Main definitions

* `ChunkName.FirstLine` : the first line of a text.
* `ChunkName.FileShown`, `ChunkName.TextShown` : what is shown of a file name and of source text.
* `ChunkName.Overflows` : the names whose short forms take 60 bytes or more.

## Main statements

* `ChunkName.suffix_suffixWithin_iff` : the longest end of a text within a size.
* `ChunkName.firstLine_eq_iff` : what is computed as the first line.
* `ChunkName.display_shortens` : what short forms show, and when they are too long.
* `ChunkName.display_of_wide_letters` : a name and a text that are shortened wrongly.
-/

namespace LuaMachine.ChunkName

variable {cs t name text line line' p : List Char} {dotted : Bool} {n : Nat}

/-! ### Sizes in bytes -/

theorem byteSize_cons (c : Char) (cs : List Char) : byteSize (c :: cs) = c.utf8Size + byteSize cs :=
  rfl

theorem byteSize_append (cs t : List Char) : byteSize (cs ++ t) = byteSize cs + byteSize t := by
  induction cs with
  | nil => exact (Nat.zero_add _).symm
  | cons c cs ih => rw [List.cons_append, byteSize_cons, byteSize_cons, ih, Nat.add_assoc]

/-- Every character takes a byte. -/
theorem length_le_byteSize (cs : List Char) : cs.length ≤ byteSize cs := by
  induction cs with
  | nil => exact Nat.le_refl 0
  | cons c cs ih =>
    have hc := c.utf8Size_pos
    rw [List.length_cons, byteSize_cons]
    omega

/-- Characters of one byte. -/
theorem byteSize_eq_length (h : ∀ c ∈ cs, c.utf8Size = 1) : byteSize cs = cs.length := by
  induction cs with
  | nil => rfl
  | cons c cs ih =>
    rw [byteSize_cons, List.length_cons, h c List.mem_cons_self,
      ih fun d hd => h d (List.mem_cons_of_mem c hd), Nat.add_comm]

theorem byteSize_le_of_suffix (h : t <:+ cs) : byteSize t ≤ byteSize cs := by
  obtain ⟨front, rfl⟩ := h
  rw [byteSize_append]
  exact Nat.le_add_left _ _

theorem utf8ByteSize_ofList (cs : List Char) : (String.ofList cs).utf8ByteSize = byteSize cs := by
  induction cs with
  | nil => rfl
  | cons c cs ih =>
    rw [String.ofList_cons, String.utf8ByteSize_append, String.utf8ByteSize_singleton, ih,
      byteSize_cons]

/-! ### Ends of a text -/

/-- **Ends that fit.** The ends of what is kept are the ends of the text within the size. -/
theorem suffix_suffixWithin_iff : t <:+ suffixWithin n cs ↔ t <:+ cs ∧ byteSize t ≤ n := by
  induction cs with
  | nil =>
    rw [suffixWithin, List.suffix_nil]
    exact ⟨fun h => ⟨h, h ▸ Nat.zero_le n⟩, And.left⟩
  | cons c cs ih =>
    rw [suffixWithin]
    split
    · next hfits => exact ⟨fun h => ⟨h, (byteSize_le_of_suffix h).trans hfits⟩, And.left⟩
    · next hlong =>
      rw [ih, List.suffix_cons_iff]
      refine and_congr_left fun hsize => ⟨.inr, fun h => h.resolve_left ?_⟩
      rintro rfl
      exact hlong hsize

/-! ### First lines -/

/-- The first line of a text: all of it, or what stands before the first line feed, or before the
carriage return that stands before the first line feed. -/
inductive FirstLine (line : List Char) : List Char → Prop
  | only (h : '\n' ∉ line) : FirstLine line line
  | lineFeed (h : '\n' ∉ line) (hreturn : line.getLast? ≠ some '\r') (rest : List Char) :
      FirstLine line (line ++ '\n' :: rest)
  | returnAndLineFeed (h : '\n' ∉ line) (rest : List Char) :
      FirstLine line (line ++ '\r' :: '\n' :: rest)

theorem takeWhile_of_not_mem (h : '\n' ∉ line) (rest : List Char) :
    (line ++ '\n' :: rest).takeWhile (· != '\n') = line := by
  rw [List.takeWhile_append_of_pos fun c hc => bne_iff_ne.2 (ne_of_mem_of_not_mem hc h),
    List.takeWhile_cons_of_neg (by decide), List.append_nil]

/-- The computed line if there is only one. -/
theorem firstLine_of_not_mem (h : '\n' ∉ text) : firstLine text = text := by
  have hnone : text.contains '\n' = false := Bool.eq_false_iff.2 (List.contains_iff_mem.not.2 h)
  rw [firstLine, hnone, Bool.false_and, if_neg Bool.false_ne_true]
  exact List.takeWhile_eq_self_iff.2 fun c hc => bne_iff_ne.2 (ne_of_mem_of_not_mem hc h)

/-- The computed line if a line feed follows. -/
theorem firstLine_append (h : '\n' ∉ line) (rest : List Char) :
    firstLine (line ++ '\n' :: rest) =
      if line.getLast? = some '\r' then line.dropLast else line := by
  have hmem : '\n' ∈ line ++ '\n' :: rest := List.mem_append_right line List.mem_cons_self
  rw [firstLine, takeWhile_of_not_mem h, List.contains_iff_mem.2 hmem, Bool.true_and]
  exact if_congr beq_iff_eq rfl rfl

theorem firstLine_eq_iff : firstLine text = line ↔ FirstLine line text := by
  constructor
  · rintro rfl
    by_cases hmem : '\n' ∈ text
    · obtain ⟨start, rest, rfl, hstart⟩ := List.eq_append_cons_of_mem hmem
      rw [firstLine_append hstart]
      split
      · next hreturn =>
        obtain ⟨front, rfl⟩ := List.getLast?_eq_some_iff.1 hreturn
        rw [List.dropLast_concat, List.append_assoc]
        exact .returnAndLineFeed (fun h => hstart (List.mem_append_left _ h)) rest
      · next hreturn => exact .lineFeed hstart hreturn rest
    · rw [firstLine_of_not_mem hmem]
      exact .only hmem
  · rintro (h | ⟨h, hreturn, rest⟩ | ⟨h, rest⟩)
    · exact firstLine_of_not_mem h
    · rw [firstLine_append h, if_neg hreturn]
    · have hboth : '\n' ∉ line ++ ['\r'] := by
        rw [List.mem_append, List.mem_singleton]
        exact fun hmem => hmem.elim h (by decide)
      rw [List.append_cons, firstLine_append hboth, if_pos List.getLast?_concat,
        List.dropLast_concat]

theorem FirstLine.not_mem (h : FirstLine line text) : '\n' ∉ line := by
  cases h <;> assumption

theorem FirstLine.isPrefix (h : FirstLine line text) : line <+: text := by
  cases h with
  | only => exact List.prefix_rfl
  | lineFeed | returnAndLineFeed => exact List.prefix_append _ _

theorem FirstLine.unique (h : FirstLine line text) (h' : FirstLine line' text) : line = line' :=
  (firstLine_eq_iff.2 h).symm.trans (firstLine_eq_iff.2 h')

/-- A line is the whole text, unless a line feed follows it. -/
theorem FirstLine.eq_iff (h : FirstLine line text) : line = text ↔ '\n' ∉ text := by
  refine ⟨fun heq => heq ▸ h.not_mem, fun hmem => ?_⟩
  rw [← firstLine_eq_iff.2 h, firstLine_of_not_mem hmem]

/-! ### Literal names and file names -/

/-- What is shown of a file name: all of it, or dots and the longest end of at most 56 bytes. -/
inductive FileShown (name : List Char) : List Char → Prop
  | all (h : byteSize name < 60) : FileShown name name
  | ending {rest : List Char} (h : 60 ≤ byteSize name)
      (hrest : ∀ t, t <:+ rest ↔ t <:+ name ∧ byteSize t ≤ 56) :
      FileShown name ("...".toList ++ rest)

theorem fileShown (name : List Char) : FileShown name (file name) := by
  rw [file]
  split
  · next h => exact .all h
  · next h => exact .ending (Nat.not_lt.1 h) fun t => suffix_suffixWithin_iff

/-- File names are within the limit, whatever characters they consist of. -/
theorem FileShown.byteSize_lt (h : FileShown name t) : byteSize t < 60 := by
  cases h with
  | all h => exact h
  | ending _ hrest =>
    have hsize := ((hrest _).1 List.suffix_rfl).2
    have hdots : byteSize "...".toList = 3 := by decide
    rw [byteSize_append, hdots]
    omega

/-! ### Source text -/

/-- Source text: neither a literal name nor a file name. -/
def IsSourceText (cs : List Char) : Prop :=
  cs ≠ [] ∧ cs.head? ≠ some '=' ∧ cs.head? ≠ some '@'

/-- A text in quotes and brackets, with or without dots behind it. -/
def quoted (p : List Char) (dotted : Bool) : List Char :=
  "[string \"".toList ++ p ++ (if dotted then "...\"]" else "\"]").toList

/-- What is shown of source text: up to 45 characters of the first line.  Dots stand behind them if
they are not the whole text, and also if they are and take more than 45 bytes. -/
structure TextShown (text p : List Char) (dotted : Bool) : Prop where
  line : ∃ line, FirstLine line text ∧ p = line.take 45
  dotted_iff : dotted = true ↔ p ≠ text ∨ 45 < byteSize text

theorem length_quoted (p : List Char) (dotted : Bool) :
    (quoted p dotted).length = p.length + if dotted then 14 else 11 := by
  have hfront : "[string \"".toList.length = 9 := by decide
  have hend : (if dotted then "...\"]" else "\"]").toList.length = if dotted then 5 else 2 := by
    cases dotted <;> decide
  unfold quoted
  rw [List.length_append, List.length_append, hfront, hend]
  split <;> omega

theorem byteSize_quoted (p : List Char) (dotted : Bool) :
    byteSize (quoted p dotted) = byteSize p + if dotted then 14 else 11 := by
  have hfront : byteSize "[string \"".toList = 9 := by decide
  have hend : byteSize (if dotted then "...\"]" else "\"]").toList = if dotted then 5 else 2 := by
    cases dotted <;> decide
  unfold quoted
  rw [byteSize_append, byteSize_append, hfront, hend]
  split <;> omega

theorem take_of_byteSize_le (h : byteSize cs ≤ n) : cs.take n = cs :=
  List.take_of_length_le ((length_le_byteSize cs).trans h)

/-- Dots stand behind a first line that takes more than 45 bytes, or that is not the only one. -/
def isDotted (line text : List Char) : Bool := decide (45 < byteSize line) || text.contains '\n'

/-- A line of up to 45 bytes loses no character, so that without a second line nothing is left
out. -/
theorem textShown_of_line (h : FirstLine line text) :
    TextShown text (line.take 45) (isDotted line text) where
  line := ⟨line, h, rfl⟩
  dotted_iff := by
    rw [isDotted, Bool.or_eq_true, decide_eq_true_iff, List.contains_iff_mem]
    by_cases hmem : '\n' ∈ text
    · have hne : line.take 45 ≠ text := fun heq =>
        h.not_mem (List.mem_of_mem_take (heq ▸ hmem))
      exact iff_of_true (.inr hmem) (.inl hne)
    · obtain rfl := h.eq_iff.2 hmem
      rw [or_iff_left hmem]
      exact ⟨.inr, fun h => h.elim (fun hne => Nat.lt_of_not_le (mt take_of_byteSize_le hne)) id⟩

theorem excerpt_eq_quoted (h : FirstLine line text) :
    excerpt text = quoted (line.take 45) (isDotted line text) := by
  rw [excerpt, firstLine_eq_iff.2 h]
  change (if isDotted line text = true then _ else _) = _
  by_cases hdots : isDotted line text = true
  · rw [if_pos hdots, hdots]
    rfl
  · have hfalse := Bool.eq_false_iff.2 hdots
    have hle : byteSize line ≤ 45 :=
      Nat.le_of_not_lt (of_decide_eq_false (Bool.or_eq_false_iff.1 hfalse).1)
    rw [if_neg hdots, hfalse, take_of_byteSize_le hle]
    rfl

/-- Source text is within the limit exactly if its characters take no more bytes than there is room
for. -/
theorem TextShown.byteSize_lt_iff (h : TextShown text p dotted) :
    byteSize (quoted p dotted) < 60 ↔ byteSize p ≤ 45 := by
  rw [byteSize_quoted]
  cases dotted with
  | true =>
    change byteSize p + 14 < 60 ↔ byteSize p ≤ 45
    omega
  | false =>
    -- Without dots the whole text is shown, which is not too long.
    have hshort : byteSize text ≤ 45 := Nat.le_of_not_lt fun hlong =>
      Bool.false_ne_true (h.dotted_iff.2 (.inr hlong))
    have hp : p = text := by_contra fun hne => Bool.false_ne_true (h.dotted_iff.2 (.inl hne))
    subst hp
    change byteSize p + 11 < 60 ↔ byteSize p ≤ 45
    omega

/-! ### Chunk names -/

/-- The names whose short forms take 60 bytes or more: the characters that are left of a literal
name or of the first line take more bytes than there is room for. -/
inductive Overflows : List Char → Prop
  | literal {name : List Char} (h : 60 ≤ byteSize (name.take 59)) : Overflows ('=' :: name)
  | text {text line : List Char} (htext : IsSourceText text) (hline : FirstLine line text)
      (h : 45 < byteSize (line.take 45)) : Overflows text

theorem displayChars_of_isSourceText (h : IsSourceText text) : displayChars text = excerpt text := by
  obtain ⟨hne, hliteral, hfile⟩ := h
  unfold displayChars
  split
  · exact absurd rfl hne
  · exact absurd rfl hliteral
  · exact absurd rfl hfile
  · rfl

/-- Every name is empty, a literal name, a file name or source text. -/
theorem exists_kind (cs : List Char) :
    cs = [] ∨ (∃ name, cs = '=' :: name) ∨ (∃ name, cs = '@' :: name) ∨ IsSourceText cs := by
  rcases cs with _ | ⟨c, name⟩
  · exact .inl rfl
  · by_cases hliteral : c = '='
    · exact .inr (.inl ⟨name, by rw [hliteral]⟩)
    · by_cases hfile : c = '@'
      · exact .inr (.inr (.inl ⟨name, by rw [hfile]⟩))
      · exact .inr (.inr (.inr ⟨List.cons_ne_nil c name, fun h => hliteral (Option.some.inj h),
          fun h => hfile (Option.some.inj h)⟩))

theorem displayChars_of_line (htext : IsSourceText text) (h : FirstLine line text) :
    displayChars text = quoted (line.take 45) (isDotted line text) :=
  (displayChars_of_isSourceText htext).trans (excerpt_eq_quoted h)

/-- Short forms have less than 60 characters. -/
theorem length_displayChars_lt (cs : List Char) : (displayChars cs).length < 60 := by
  obtain rfl | ⟨name, rfl⟩ | ⟨name, rfl⟩ | htext := exists_kind cs
  · decide
  · exact Nat.lt_succ_of_le (List.length_take_le 59 name)
  · exact (length_le_byteSize _).trans_lt (fileShown name).byteSize_lt
  · have hlength := List.length_take_le 45 (firstLine cs)
    rw [displayChars_of_line htext (firstLine_eq_iff.1 rfl), length_quoted]
    split <;> omega

theorem byteSize_displayChars_lt_iff (cs : List Char) :
    byteSize (displayChars cs) < 60 ↔ ¬Overflows cs := by
  obtain rfl | ⟨name, rfl⟩ | ⟨name, rfl⟩ | htext := exists_kind cs
  · refine iff_of_true (by decide) ?_
    rintro (_ | ⟨htext, -, -⟩)
    exact htext.1 rfl
  · have hiff : Overflows ('=' :: name) ↔ 60 ≤ byteSize (name.take 59) := by
      refine ⟨?_, .literal⟩
      rintro (h | ⟨htext, -, -⟩)
      · exact h
      · exact absurd rfl htext.2.1
    rw [hiff, Nat.not_le]
    rfl
  · refine iff_of_true (fileShown name).byteSize_lt ?_
    rintro (_ | ⟨htext, -, -⟩)
    exact htext.2.2 rfl
  · have hline : FirstLine (firstLine cs) cs := firstLine_eq_iff.1 rfl
    have hiff : Overflows cs ↔ 45 < byteSize ((firstLine cs).take 45) := by
      refine ⟨?_, .text htext hline⟩
      rintro (_ | ⟨-, hline', h⟩)
      · exact absurd rfl htext.2.1
      · rwa [hline.unique hline']
    rw [displayChars_of_line htext hline, (textShown_of_line hline).byteSize_lt_iff, hiff,
      Nat.not_lt]

/-- Names of characters of one byte do not overflow. -/
theorem not_overflows (h : ∀ c ∈ cs, c.utf8Size = 1) : ¬Overflows cs := by
  rintro (hlong | ⟨-, hline, hlong⟩)
  · rw [byteSize_eq_length fun c hc => h c (List.mem_cons_of_mem _ (List.mem_of_mem_take hc))]
      at hlong
    exact absurd (hlong.trans (List.length_take_le _ _)) (by decide)
  · rw [byteSize_eq_length fun c hc => h c (hline.isPrefix.subset (List.mem_of_mem_take hc))]
      at hlong
    exact absurd (hlong.trans_le (List.length_take_le _ _)) (Nat.lt_irrefl 45)

/-- **Short forms.** They have less than 60 characters, but less than 60 bytes only if what is left
of a literal name or of a first line, cut by characters, takes no more bytes than there is room for;
so it is with characters of one byte.  A file name is shown whole, or its longest end that fits
behind dots.  Of source text the beginning of the first line is shown, with dots if that is not the
whole text, or if it takes more than 45 bytes. -/
theorem display_shortens (source : String) :
    (display source).length < 60 ∧
      ((display source).utf8ByteSize < 60 ↔ ¬Overflows source.toList) ∧
      ((∀ c ∈ source.toList, c.utf8Size = 1) → ¬Overflows source.toList) ∧
      (∀ name, source.toList = '=' :: name → (display source).toList = name.take 59) ∧
      (∀ name, source.toList = '@' :: name → FileShown name (display source).toList) ∧
      (IsSourceText source.toList → ∃ p dotted,
        TextShown source.toList p dotted ∧ (display source).toList = quoted p dotted) := by
  have hchars : (display source).toList = displayChars source.toList := String.toList_ofList
  rw [hchars]
  refine ⟨?_, ?_, not_overflows, ?_, ?_, ?_⟩
  · rw [display, String.length_ofList]
    exact length_displayChars_lt _
  · rw [display, utf8ByteSize_ofList]
    exact byteSize_displayChars_lt_iff _
  · intro name hname
    rw [hname]
    rfl
  · intro name hname
    rw [hname]
    exact fileShown name
  · intro htext
    have hline : FirstLine (firstLine source.toList) source.toList := firstLine_eq_iff.1 rfl
    exact ⟨_, _, textShown_of_line hline, displayChars_of_line htext hline⟩

/-- A literal name, a file name of 60 bytes, and a text of two lines. -/
theorem display_shortens_of_each_kind :
    ¬Overflows "=stdin".toList ∧
      (display "=stdin").toList = ['s', 't', 'd', 'i', 'n'].take 59 ∧
      FileShown (List.replicate 30 'é')
        (display (String.ofList ('@' :: List.replicate 30 'é'))).toList ∧
      ∃ p dotted, TextShown "x = 1\r\ny = 2".toList p dotted ∧
        (display "x = 1\r\ny = 2").toList = quoted p dotted := by
  obtain ⟨-, -, hbytes, hliteral, -⟩ := display_shortens "=stdin"
  obtain ⟨-, -, -, -, hfile, -⟩ :=
    display_shortens (String.ofList ('@' :: List.replicate 30 'é'))
  obtain ⟨-, -, -, -, -, htext⟩ := display_shortens "x = 1\r\ny = 2"
  have hone : "=stdin".toList.all (·.utf8Size == 1) = true := by decide
  exact ⟨hbytes fun c hc => eq_of_beq (List.all_eq_true.1 hone c hc), hliteral _ (by decide),
    hfile _ String.toList_ofList, htext ⟨by decide, by decide, by decide⟩⟩

/-- **Letters of two bytes.** A literal name of 30 of them is shown whole and takes 60 bytes.  A line
of 23 is shown whole as well, but with dots, as if something had been left out. -/
theorem display_of_wide_letters :
    let name := List.replicate 30 'é'
    let text := List.replicate 23 'é'
    (display (String.ofList ('=' :: name))).utf8ByteSize = 60 ∧
      IsSourceText text ∧ (display (String.ofList text)).toList = quoted text true ∧
      ¬∃ p dotted, p <+: text ∧ (display (String.ofList text)).toList = quoted p dotted ∧
        (dotted = true ↔ p ≠ text) := by
  intro name text
  have hshown : (display (String.ofList text)).toList = quoted text true := by decide
  refine ⟨?_, ⟨by decide, by decide, by decide⟩, hshown, ?_⟩
  · rw [display, utf8ByteSize_ofList, String.toList_ofList]
    decide
  · rintro ⟨p, dotted, hstart, heq, hdots⟩
    have hlength : text.length + 14 = p.length + if dotted then 14 else 11 := by
      rw [← length_quoted, ← heq, hshown, length_quoted]
      rfl
    have hle := hstart.length_le
    cases dotted with
    | true => exact hdots.1 rfl (hstart.eq_of_length (Nat.add_right_cancel hlength).symm)
    | false =>
      change text.length + 14 = p.length + 11 at hlength
      omega

end LuaMachine.ChunkName
