/-
Clients that find the statements of a script.

A client reads a script line by line, with the semicolon as its first delimiter. A line that begins
outside of quotes and whose first word is `DELIMITER`, in any letter case, sets another one. In every
other line, a statement ends wherever the delimiter stands outside of quotes (`Client.scan`). Quotes
are backticks and double quotation marks, and each stretches to the next mark of its kind.

* `Client.scan_shielded` — a text that shows the delimiter's first character in quotes only is read
  on, up to what stands behind it;
* `Client.run_script` — a text of such lines, none of which sets a delimiter, is one statement when
  it stands in a script between two lines that do.
-/
import TypedSql.Proofs.Runs

namespace TypedSql

/-! ### Pieces of texts -/

namespace Text

theorem splitAt_append_mark {mark : Char} (xs ys : List Char) :
    splitAt mark (xs ++ mark :: ys) = splitAt mark xs ++ splitAt mark ys := by
  induction xs with
  | nil => exact splitAt_append List.not_mem_nil ys
  | cons c xs ih =>
    by_cases hc : c = mark
    · rw [List.cons_append, splitAt, if_pos hc, ih, splitAt, if_pos hc, List.cons_append]
    · obtain ⟨piece, pieces, hxs⟩ := List.exists_cons_of_ne_nil (splitAt_ne_nil mark xs)
      rw [List.cons_append, splitAt, if_neg hc, ih, splitAt, if_neg hc, hxs]
      rfl

/-- What has no mark in it stands in front of the first piece. -/
theorem splitAt_append_first {mark : Char} {front rest piece : List Char}
    {pieces : List (List Char)} (h : mark ∉ front) (hrest : splitAt mark rest = piece :: pieces) :
    splitAt mark (front ++ rest) = (front ++ piece) :: pieces := by
  induction front with
  | nil => exact hrest
  | cons c front ih =>
    obtain ⟨hc, hfront⟩ := List.ne_and_not_mem_of_not_mem_cons h
    rw [List.cons_append, splitAt, if_neg (Ne.symm hc), ih hfront]
    rfl

/-- With a mark behind each, the pieces are the text and one more mark. -/
theorem flatMap_splitAt (mark : Char) (cs : List Char) :
    (splitAt mark cs).flatMap (· ++ [mark]) = cs ++ [mark] := by
  induction cs with
  | nil => rfl
  | cons c cs ih =>
    obtain ⟨piece, pieces, hcs⟩ := List.exists_cons_of_ne_nil (splitAt_ne_nil mark cs)
    rw [hcs, List.flatMap_cons] at ih
    rw [splitAt]
    split_ifs with hc
    · rw [hcs, List.flatMap_cons, List.flatMap_cons, ih, hc]
      rfl
    · rw [hcs, List.flatMap_cons, List.cons_append, List.cons_append, ih, List.cons_append]

end Text

/-! ### The client -/

/-- A client on its way through a script. -/
structure Client where
  delimiter : List Char := [';']
  /-- The mark that ends the quoted text which is being read, if one is. -/
  quote : Option Char := none
  /-- What has been read behind the last statement. -/
  pending : List Char := []
  statements : List String := []
  deriving DecidableEq, Repr

namespace Client

/-- The first word of a text. -/
def word (cs : List Char) : List Char :=
  (Text.trimStart cs).takeWhile (!Text.isBlank ·)

/-- What stands behind the first word. -/
def behindWord (cs : List Char) : List Char :=
  (Text.trimStart cs).dropWhile (!Text.isBlank ·)

/-- The delimiter that a line asks for, if it begins with the word for that. -/
def request? (line : List Char) : Option (List Char) :=
  if Text.lower (word line) = "delimiter".toList then some (word (behindWord line)) else none

/-- Ends a statement. White space alone is none. -/
def finish (st : Client) : Client :=
  if st.pending.all Text.isBlank then { st with pending := [] }
  else { st with pending := [], statements := st.statements ++ [.ofList st.pending] }

/-- Reads a character that begins no delimiter. -/
def read (st : Client) (c : Char) : Client :=
  { st with
    pending := st.pending ++ [c]
    quote := match st.quote with
      | some mark => if c = mark then none else some mark
      | none => if c = '\x60' ∨ c = '"' then some c else none }

/-- Reads characters of a line. A number of them belongs to a delimiter that has been found. -/
def scan : Client → Nat → List Char → Client
  | st, _, [] => st
  | st, more + 1, _ :: cs => st.scan more cs
  | st, 0, c :: cs =>
    if st.quote = none ∧ st.delimiter <+: c :: cs then
      st.finish.scan (st.delimiter.length - 1) cs
    else (st.read c).scan 0 cs

/-- Reads a line and its end. Where a delimiter is asked for but not given, the old one stays. -/
def readLine (st : Client) (line : List Char) : Client :=
  match st.quote, request? line with
  | none, some [] => st
  | none, some delimiter => { st with delimiter }
  | _, _ => (st.scan 0 line).read '\n'

/-- Reads a script from its beginning to its end, where the last statement ends as well. -/
def run (script : String) : Client :=
  ((Text.splitAt '\n' script.toList).foldl readLine {}).finish

/-- The client with characters that have been read. -/
def keep (st : Client) (cs : List Char) : Client :=
  { st with pending := st.pending ++ cs }

@[simp] theorem quote_keep (st : Client) (cs : List Char) : (st.keep cs).quote = st.quote :=
  rfl

@[simp] theorem delimiter_keep (st : Client) (cs : List Char) :
    (st.keep cs).delimiter = st.delimiter :=
  rfl

theorem keep_nil (st : Client) : st.keep [] = st := by
  simp [keep]

theorem keep_keep (st : Client) (xs ys : List Char) : (st.keep xs).keep ys = st.keep (xs ++ ys) := by
  simp [keep]

theorem finish_of_mem {st : Client} {c : Char} (hc : c ∈ st.pending)
    (hblank : Text.isBlank c = false) : st.finish =
      { st with pending := [], statements := st.statements ++ [.ofList st.pending] } := by
  have hsome : ¬ st.pending.all Text.isBlank = true := fun hall => by
    rw [List.all_eq_true.mp hall c hc] at hblank
    exact absurd hblank (by decide)
  rw [finish, if_neg hsome]

/-! ### Texts that show no delimiter -/

/-- A text in which quotes are closed, and a character stands in quotes only. -/
inductive Shielded (hidden : Char) : List Char → Prop
  | nil : Shielded hidden []
  | plain {c : Char} {cs : List Char} (other : c ≠ hidden ∧ c ≠ '\x60' ∧ c ≠ '"')
      (rest : Shielded hidden cs) : Shielded hidden (c :: cs)
  | quoted {mark : Char} {inside cs : List Char} (known : mark = '\x60' ∨ mark = '"')
      (free : mark ∉ inside) (rest : Shielded hidden cs) :
      Shielded hidden (mark :: (inside ++ mark :: cs))

namespace Shielded

variable {hidden : Char} {xs ys : List Char}

theorem append (h : Shielded hidden xs) (h' : Shielded hidden ys) : Shielded hidden (xs ++ ys) := by
  induction h with
  | nil => exact h'
  | plain other _ ih => exact .plain other ih
  | quoted known free _ ih =>
    rw [List.cons_append, List.append_assoc, List.cons_append]
    exact .quoted known free ih

theorem of_plain (h : ∀ c ∈ xs, c ≠ hidden ∧ c ≠ '\x60' ∧ c ≠ '"') : Shielded hidden xs := by
  induction xs with
  | nil => exact .nil
  | cons c xs ih =>
    obtain ⟨hc, hxs⟩ := List.forall_mem_cons.mp h
    exact .plain hc (ih hxs)

end Shielded

section Scan

variable {st : Client} {hidden mark : Char} {cs rest inside more : List Char}

theorem scan_cons (h : st.quote = none → ¬ st.delimiter <+: mark :: cs) :
    st.scan 0 (mark :: cs) = (st.read mark).scan 0 cs := by
  rw [scan, if_neg fun hfound => h hfound.1 hfound.2]

theorem not_prefix (hd : st.delimiter = hidden :: more) (h : mark ≠ hidden) :
    ¬ st.delimiter <+: mark :: cs := by
  rw [hd, List.cons_prefix_cons]
  exact fun hprefix => h hprefix.1.symm

/-- A quoted text is read on up to the mark that closes it. -/
theorem scan_quoted (hquote : st.quote = some mark) (free : mark ∉ inside) :
    st.scan 0 (inside ++ rest) = (st.keep inside).scan 0 rest := by
  induction inside generalizing st with
  | nil => rw [List.nil_append, keep_nil]
  | cons c inside ih =>
    obtain ⟨hc, hinside⟩ := List.ne_and_not_mem_of_not_mem_cons free
    have hread : st.read c = st.keep [c] := by simp [read, keep, hquote, Ne.symm hc]
    rw [List.cons_append, scan_cons (by simp [hquote]), hread,
      ih ((quote_keep _ _).trans hquote) hinside, keep_keep]
    rfl

/-- A text that shows the first character of the delimiter in quotes only is read on. -/
theorem scan_shielded (h : Shielded hidden cs) (hquote : st.quote = none)
    (hd : st.delimiter = hidden :: more) (hhidden : hidden ≠ '\x60' ∧ hidden ≠ '"') :
    st.scan 0 (cs ++ rest) = (st.keep cs).scan 0 rest := by
  induction h generalizing st with
  | nil => rw [List.nil_append, keep_nil]
  | @plain c cs other _ ih =>
    have hread : st.read c = st.keep [c] := by simp [read, keep, hquote, other]
    rw [List.cons_append, scan_cons fun _ => not_prefix hd other.1, hread,
      ih ((quote_keep _ _).trans hquote) ((delimiter_keep _ _).trans hd), keep_keep]
    rfl
  | @quoted mark inside cs known free _ ih =>
    have hmark : mark ≠ hidden := by
      rintro rfl
      exact known.elim hhidden.1 hhidden.2
    -- the mark opens a quoted text, and the same mark closes it again
    have hopen : st.read mark = { st.keep [mark] with quote := some mark } := by
      simp [read, keep, hquote, known]
    have hclose : (({ st.keep [mark] with quote := some mark } : Client).keep inside).read mark =
        st.keep (mark :: (inside ++ [mark])) := by
      simp [read, keep, hquote]
    rw [List.cons_append, List.append_assoc, List.cons_append,
      scan_cons fun _ => not_prefix hd hmark, hopen, scan_quoted rfl free,
      scan_cons (by simp), hclose, ih ((quote_keep _ _).trans hquote)
        ((delimiter_keep _ _).trans hd), keep_keep]
    simp

theorem scan_skip (st : Client) (xs rest : List Char) :
    st.scan xs.length (xs ++ rest) = st.scan 0 rest := by
  induction xs with
  | nil => rfl
  | cons c xs ih => exact ih

/-- The delimiter ends a statement. -/
theorem scan_delimiter (hquote : st.quote = none) (hd : st.delimiter = hidden :: more) :
    st.scan 0 (hidden :: (more ++ rest)) = st.finish.scan 0 rest := by
  have hfound : st.delimiter <+: hidden :: (more ++ rest) := hd ▸ List.prefix_append _ rest
  rw [scan, if_pos ⟨hquote, hfound⟩, hd, List.length_cons, Nat.add_sub_cancel, scan_skip]

/-- Outside of quotes only, and a line may ask for another one. -/
example : (run "DELETE FROM `a;b`; SELECT 1\ndelimiter //\n;//").statements =
    ["DELETE FROM `a;b`", " SELECT 1\n;"] := by
  decide +kernel

/-- A line that shows no delimiter and asks for none. -/
structure Quiet (hidden : Char) (line : List Char) : Prop where
  shielded : Shielded hidden line
  plain : request? line = none

theorem readLine_of_none (hquote : st.quote = none) (h : request? cs = none) :
    st.readLine cs = (st.scan 0 cs).read '\n' := by
  rw [readLine, hquote, h]

theorem readLine_quiet (h : Quiet hidden cs) (hquote : st.quote = none)
    (hd : st.delimiter = hidden :: more) (hhidden : hidden ≠ '\x60' ∧ hidden ≠ '"') :
    st.readLine cs = st.keep (cs ++ ['\n']) := by
  have hscan : st.scan 0 (cs ++ []) = st.keep cs :=
    (scan_shielded h.shielded hquote hd hhidden).trans (scan.eq_1 _ _)
  rw [List.append_nil] at hscan
  rw [readLine_of_none hquote h.plain, hscan]
  simp [read, keep, hquote]

theorem foldl_readLine_quiet {lines : List (List Char)} (h : ∀ line ∈ lines, Quiet hidden line)
    (hquote : st.quote = none) (hd : st.delimiter = hidden :: more)
    (hhidden : hidden ≠ '\x60' ∧ hidden ≠ '"') :
    lines.foldl readLine st = st.keep (lines.flatMap (· ++ ['\n'])) := by
  induction lines generalizing st with
  | nil => exact st.keep_nil.symm
  | cons line lines ih =>
    obtain ⟨hline, hlines⟩ := List.forall_mem_cons.mp h
    rw [List.foldl_cons, readLine_quiet hline hquote hd hhidden,
      ih hlines ((quote_keep _ _).trans hquote) ((delimiter_keep _ _).trans hd), keep_keep]
    rfl

/-- A line that ends with the delimiter ends a statement. -/
theorem readLine_delimiter (h : Shielded hidden cs) (hplain : request? (cs ++ hidden :: more) = none)
    (hquote : st.quote = none) (hd : st.delimiter = hidden :: more)
    (hhidden : hidden ≠ '\x60' ∧ hidden ≠ '"') :
    st.readLine (cs ++ hidden :: more) = (st.keep cs).finish.read '\n' := by
  have hend : (st.keep cs).scan 0 (hidden :: (more ++ [])) = (st.keep cs).finish.scan 0 [] :=
    scan_delimiter ((quote_keep _ _).trans hquote) ((delimiter_keep _ _).trans hd)
  rw [List.append_nil] at hend
  rw [readLine_of_none hquote hplain, scan_shielded h hquote hd hhidden, hend, scan]

end Scan

/-! ### Lines -/

/-- A text of such lines. -/
def QuietLines (hidden : Char) (cs : List Char) : Prop :=
  ∀ line ∈ Text.splitAt '\n' cs, Quiet hidden line

section Lines

variable {hidden c : Char} {xs ys : List Char}

theorem quietLines_nil : QuietLines hidden [] :=
  List.forall_mem_singleton.mpr ⟨.nil, rfl⟩

theorem QuietLines.append_newline (h : QuietLines hidden xs) (h' : QuietLines hidden ys) :
    QuietLines hidden (xs ++ '\n' :: ys) := by
  rw [QuietLines, Text.splitAt_append_mark]
  exact List.forall_mem_append.mpr ⟨h, h'⟩

/-- A text in front of the first line. -/
theorem QuietLines.append_first (h : QuietLines hidden ys) (inLine : '\n' ∉ xs)
    (hquiet : ∀ line, Quiet hidden line → Quiet hidden (xs ++ line)) :
    QuietLines hidden (xs ++ ys) := by
  obtain ⟨first, more, hys⟩ := List.exists_cons_of_ne_nil (Text.splitAt_ne_nil '\n' ys)
  rw [QuietLines, hys, List.forall_mem_cons] at h
  rw [QuietLines, Text.splitAt_append_first inLine hys, List.forall_mem_cons]
  exact ⟨hquiet first h.1, h.2⟩

theorem Quiet.blank_cons (h : Quiet hidden xs) (hblank : Text.isBlank c = true)
    (other : c ≠ hidden ∧ c ≠ '\x60' ∧ c ≠ '"') : Quiet hidden (c :: xs) := by
  have htrim : Text.trimStart (c :: xs) = Text.trimStart xs := List.dropWhile_cons_of_pos hblank
  refine ⟨.plain other h.shielded, ?_⟩
  rw [request?, word, behindWord, htrim]
  exact h.plain

theorem QuietLines.blank_cons (h : QuietLines hidden xs) (hblank : Text.isBlank c = true)
    (other : c ≠ hidden ∧ c ≠ '\x60' ∧ c ≠ '"') : QuietLines hidden (c :: xs) := by
  by_cases hc : c = '\n'
  · subst hc
    exact quietLines_nil.append_newline h
  · have hin : '\n' ∉ [c] := by simpa using Ne.symm hc
    exact h.append_first hin fun line hline => hline.blank_cons hblank other

/-- White space in front of the first line. -/
theorem QuietLines.append_blank (h : QuietLines hidden ys)
    (hxs : ∀ c ∈ xs, Text.isBlank c = true ∧ c ≠ hidden ∧ c ≠ '\x60' ∧ c ≠ '"') :
    QuietLines hidden (xs ++ ys) := by
  induction xs with
  | nil => exact h
  | cons c xs ih =>
    obtain ⟨⟨hblank, other⟩, hxs⟩ := List.forall_mem_cons.mp hxs
    exact (ih hxs).blank_cons hblank other

end Lines

/-! ### First words -/

/-- Whether no word that begins with these characters is that which asks for a delimiter. -/
def diverges (cs : List Char) : Bool :=
  cs.head?.all (!Text.isBlank ·) && !(Text.lower cs).isPrefixOf "delimiter".toList &&
    !"delimiter".toList.isPrefixOf (Text.lower cs)

theorem diverges_iff {cs : List Char} : diverges cs = true ↔
    (∀ c ∈ cs.head?, Text.isBlank c = false) ∧ ¬ Text.lower cs <+: "delimiter".toList ∧
      ¬ "delimiter".toList <+: Text.lower cs := by
  rw [diverges, Bool.and_eq_true, Bool.and_eq_true, Bool.not_eq_true', Bool.not_eq_true',
    ← Bool.not_eq_true, ← Bool.not_eq_true, List.isPrefixOf_iff_prefix, List.isPrefixOf_iff_prefix,
    Option.all_eq_true, and_assoc]
  simp

theorem diverges_append {xs : List Char} (h : diverges xs = true) (ys : List Char) :
    diverges (xs ++ ys) = true := by
  obtain ⟨hfirst, hleft, hright⟩ := diverges_iff.mp h
  have hlower : Text.lower (xs ++ ys) = Text.lower xs ++ Text.lower ys := List.map_append
  have hsome : xs ≠ [] := by
    rintro rfl
    exact hleft List.nil_prefix
  rw [diverges_iff, hlower, List.head?_append_of_ne_nil _ hsome]
  refine ⟨hfirst, fun hmore => hleft ((List.prefix_append _ _).trans hmore), fun hmore => ?_⟩
  obtain hpart | hpart := List.prefix_or_prefix_of_prefix hmore (List.prefix_append _ _)
  · exact hright hpart
  · exact hleft hpart

/-- Another first letter. -/
theorem diverges_cons {c : Char} (hblank : Text.isBlank c = false) (hletter : c.toLower ≠ 'd')
    (cs : List Char) : diverges (c :: cs) = true := by
  have hone : diverges [c] = true := by
    refine diverges_iff.mpr ⟨by simp [hblank], ?_, ?_⟩
    · simpa [Text.lower] using hletter
    · simp [Text.lower, Ne.symm hletter]
  exact diverges_append hone cs

theorem request?_eq_none {cs : List Char} (h : diverges cs = true) : request? cs = none := by
  obtain ⟨hfirst, -, hright⟩ := diverges_iff.mp h
  have htrim : Text.trimStart cs = cs := by
    cases cs with
    | nil => rfl
    | cons c cs => exact List.dropWhile_cons_of_neg (by simpa using hfirst)
  refine if_neg fun hword => hright ?_
  rw [← hword, word, htrim]
  exact (List.takeWhile_prefix _).map _

/-! ### Scripts -/

/-- Between a line that sets another delimiter and one that sets the semicolon again, a quiet text
is one statement. -/
theorem run_script {front : List Char} (h : QuietLines '$' front) :
    run (.ofList ("DELIMITER $$".toList ++ '\n' :: (front ++ '\n' :: ("END$$".toList ++ '\n' ::
      "DELIMITER ;".toList)))) = { statements := [.ofList (front ++ "\nEND".toList)] } := by
  have hlines : Text.splitAt '\n' ("DELIMITER $$".toList ++ '\n' :: (front ++ '\n' ::
      ("END$$".toList ++ '\n' :: "DELIMITER ;".toList))) = "DELIMITER $$".toList ::
        (Text.splitAt '\n' front ++ ["END$$".toList, "DELIMITER ;".toList]) := by
    rw [Text.splitAt_append (by decide), Text.splitAt_append_mark]
    rfl
  have hfirst : readLine {} "DELIMITER $$".toList = { delimiter := "$$".toList } := by
    decide +kernel
  have hfront : (Text.splitAt '\n' front).foldl readLine { delimiter := "$$".toList } =
      { delimiter := "$$".toList, pending := front ++ ['\n'] } := by
    rw [foldl_readLine_quiet h rfl rfl (by decide), Text.flatMap_splitAt]
    rfl
  -- the last line ends the statement, and only the end of the line is left
  have hlast : readLine { delimiter := "$$".toList, pending := front ++ ['\n'] } "END$$".toList =
      { delimiter := "$$".toList, pending := ['\n'],
        statements := [.ofList (front ++ "\nEND".toList)] } := by
    have hend : Shielded '$' "END".toList := .of_plain (by simp)
    have hread : readLine { delimiter := "$$".toList, pending := front ++ ['\n'] } "END$$".toList =
        (keep { delimiter := "$$".toList, pending := front ++ ['\n'] } "END".toList).finish.read
          '\n' :=
      readLine_delimiter hend (by decide +kernel) rfl rfl (by decide)
    rw [hread, finish_of_mem (c := 'E') (by simp [keep]) (by decide)]
    simp [read, keep]
  rw [run, String.toList_ofList, hlines, List.foldl_cons, hfirst, List.foldl_append, hfront]
  rw [List.foldl_cons, hlast]
  rfl

end Client

end TypedSql
