/-
The scanner by bytes.

A text lies in memory as its UTF-8 bytes, and a scanner that walks over it keeps a byte offset. It
looks at the text from there on, and cuts spellings off, by slices from one byte to another. A slice
that begins or ends inside a character cannot be taken. The walk below (`tokensFrom`) has no result
where it would take such a slice, nor where it does not end after a number of steps.

* `isSome_cut?_iff` — a text can be cut at the boundaries of its characters, and nowhere else;
* `tokenAt_append` — a walk that has come to a boundary comes to the next one behind a token, by
  one spelling of the scanner;
* `tokensFrom_append` — so a walk over the whole text has a result, and it is that of the scanner,
  by induction along the text;
* `scan_covers` — what the scanner says of every text.
-/
import TypedSql.Proofs.TokenCover

namespace TypedSql

namespace Token

open Text

/-! ### Slices -/

/-- The two parts of a text at a byte. There are none inside a character, and none behind the
end. -/
def cut? : List Char → Nat → Option (List Char × List Char)
  | cs, 0 => some ([], cs)
  | [], _ + 1 => none
  | c :: rest, n + 1 =>
    if c.utf8Size ≤ n + 1 then
      (cut? rest (n + 1 - c.utf8Size)).map fun parts => (c :: parts.1, parts.2)
    else none

/-- The slice of a text from a byte on. -/
def from? (cs : List Char) (n : Nat) : Option (List Char) :=
  (cut? cs n).map Prod.snd

/-- The slice of a text in front of a byte. -/
def upTo? (cs : List Char) (n : Nat) : Option (List Char) :=
  (cut? cs n).map Prod.fst

theorem cut?_cons {c : Char} {rest : List Char} {n : Nat} (h : c.utf8Size ≤ n) :
    cut? (c :: rest) n =
      (cut? rest (n - c.utf8Size)).map fun parts => (c :: parts.1, parts.2) := by
  have hc := c.utf8Size_pos
  obtain ⟨n, rfl⟩ := Nat.exists_eq_add_of_le' (show 1 ≤ n by omega)
  rw [cut?, if_pos h]

theorem cut?_append (front back : List Char) :
    cut? (front ++ back) (byteLength front) = some (front, back) := by
  induction front with
  | nil => cases back <;> rfl
  | cons c front ih =>
    rw [List.cons_append, byteLength, cut?_cons (Nat.le_add_right _ _), Nat.add_sub_cancel_left, ih]
    rfl

theorem from?_append (front back : List Char) :
    from? (front ++ back) (byteLength front) = some back := by
  rw [from?, cut?_append]
  rfl

theorem upTo?_append (front back : List Char) :
    upTo? (front ++ back) (byteLength front) = some front := by
  rw [upTo?, cut?_append]
  rfl

theorem exists_of_cut? {cs : List Char} {n : Nat} (h : (cut? cs n).isSome = true) :
    ∃ front back, cs = front ++ back ∧ n = byteLength front := by
  induction cs generalizing n with
  | nil =>
    cases n with
    | zero => exact ⟨[], [], rfl, rfl⟩
    | succ n => exact absurd h (by simp [cut?])
  | cons c rest ih =>
    by_cases hzero : n = 0
    · exact ⟨[], c :: rest, rfl, hzero⟩
    by_cases hsize : c.utf8Size ≤ n
    · rw [cut?_cons hsize, Option.isSome_map] at h
      obtain ⟨front, back, rfl, hn⟩ := ih h
      refine ⟨c :: front, back, rfl, ?_⟩
      rw [byteLength]
      omega
    · obtain ⟨n, rfl⟩ := Nat.exists_eq_succ_of_ne_zero hzero
      rw [cut?, if_neg hsize] at h
      exact absurd h (by simp)

theorem byteLength_eq (cs : List Char) : byteLength cs = (String.ofList cs).utf8ByteSize := by
  induction cs with
  | nil => rfl
  | cons c rest ih => simp [byteLength, ih, String.ofList_cons]

/-- The parts of a text begin and end at boundaries of its characters. -/
theorem isValid_of_append {text : String} {front back : List Char}
    (h : text.toList = front ++ back) : (String.Pos.Raw.mk (byteLength front)).IsValid text := by
  rw [String.Pos.Raw.isValid_iff_exists_append]
  refine ⟨String.ofList front, String.ofList back, ?_, ?_⟩
  · rw [← String.toList_inj, h, String.toList_append, String.toList_ofList, String.toList_ofList]
  · rw [byteLength_eq]
    rfl

/-- A text can be cut at the boundaries of its characters, and nowhere else. -/
theorem isSome_cut?_iff {text : String} {n : Nat} :
    (cut? text.toList n).isSome = true ↔ (String.Pos.Raw.mk n).IsValid text := by
  constructor
  · intro h
    obtain ⟨front, back, hsplit, rfl⟩ := exists_of_cut? h
    exact isValid_of_append hsplit
  · intro h
    obtain ⟨front, back, rfl, hn⟩ := String.Pos.Raw.isValid_iff_exists_append.mp h
    have hlength : n = byteLength front.toList := by
      rw [byteLength_eq, String.ofList_toList]
      exact congrArg String.Pos.Raw.byteIdx hn
    rw [String.toList_append, hlength, cut?_append]
    rfl

/-! ### The walk -/

/-- A walk over the bytes of a text. It may be refused; it has no result where it would take a slice
off a boundary, or is out of steps. -/
abbrev Walk (α : Type) := ExceptT CompileError Option α

/-- The character at a byte. -/
def peek? (text : List Char) (pos : Nat) : Option (Option Char) := do
  let rest ← from? text pos
  return rest.head?

/-- The first byte behind white space, after so many steps at most. -/
def behindBlanks (text : List Char) : Nat → Nat → Option Nat
  | 0, _ => none
  | steps + 1, pos => do
    match ← peek? text pos with
    | some c => if isBlank c then behindBlanks text steps (pos + c.utf8Size) else return pos
    | none => return pos

/-- The byte of the first character that is not of a kind, or behind the last one. -/
def bytesWhile (p : Char → Bool) (cs : List Char) : Nat :=
  byteLength (cs.takeWhile p)

/-- The bytes of the fraction that a text begins with. -/
def fractionBytes : List Char → Nat
  | '.' :: rest =>
    if rest.head?.any Char.isDigit then 1 + bytesWhile Char.isDigit rest else 0
  | _ => 0

/-- The number that digits with a point among them spell. -/
def decimalOf (spelling : List Char) : Number.BinaryNumber :=
  Number.binary64.ofDecimal false (digitsValue (spelling.filter Char.isDigit))
    (1 - (spelling.dropWhile Char.isDigit).length)

/-- Takes a number at a byte, and says where it ends. -/
def numberAt (text : List Char) (start : Nat) : Walk (Placed × Nat) := do
  let rest ← from? text start
  let whole := bytesWhile Char.isDigit rest
  let after ← from? rest whole
  let part := fractionBytes after
  let spelling ← upTo? rest (whole + part)
  let behind := start + byteLength spelling
  if 0 < part then
    return (⟨start, .number (decimalOf spelling)⟩, behind)
  match integer? spelling with
  | some t => return (⟨start, t⟩, behind)
  | none => throw (.parse behind (.integerOutOfRange (String.ofList spelling)))

/-- Takes a word off the slice that begins with it. -/
def wordAt (start : Nat) (rest : List Char) : Walk (Placed × Nat) := do
  let size := bytesWhile isIdentifierChar rest
  let name ← upTo? rest size
  return (⟨start, ofWord (String.ofList name)⟩, start + size)

/-- Takes the next token behind a byte, and says where it ends. Each character of a symbol is one
byte. -/
def tokenAt (text : List Char) (steps pos : Nat) : Walk (Option (Placed × Nat)) := do
  let start ← behindBlanks text steps pos
  match ← peek? text start with
  | none => return none
  | some c =>
    let rest ← from? text start
    match symbol? rest with
    | some (spelling, t) => return some (⟨start, t⟩, start + spelling.length)
    | none =>
      if c.isDigit then return some (← numberAt text start)
      else if startsWord c then return some (← wordAt start rest)
      else throw (.parse start (.unexpectedCharacter c))

/-- Takes tokens from a byte on, until the text ends, after so many steps at most. -/
def tokensFrom (text : List Char) : Nat → Nat → Walk (List Placed)
  | 0, _ => ExceptT.mk none
  | steps + 1, pos => do
    match ← tokenAt text (steps + 1) pos with
    | none => return []
    | some (placed, behind) => return placed :: (← tokensFrom text steps behind)

/-! ### Results of the walk -/

/-- The walk with a result. -/
def Walk.ended {α : Type} (result : Except CompileError α) : Walk α :=
  ExceptT.mk (some result)

theorem ended_bind {α β : Type} {a : α} {f : α → Walk β} :
    (Walk.ended (.ok a) >>= f) = f a :=
  rfl

theorem lift_bind {α β : Type} {x : Option α} {a : α} {f : α → Walk β} (h : x = some a) :
    ((liftM x : Walk α) >>= f) = f a := by
  subst h
  rfl

theorem peek?_append (front rest : List Char) :
    peek? (front ++ rest) (byteLength front) = some rest.head? := by
  rw [peek?, from?_append]
  rfl

theorem behindBlanks_append (front : List Char) {rest : List Char} {steps : Nat}
    (hsteps : rest.length < steps) :
    behindBlanks (front ++ rest) steps (byteLength front) =
      some (byteLength front + byteLength (rest.takeWhile isBlank)) := by
  obtain ⟨steps, rfl⟩ := Nat.exists_eq_succ_of_ne_zero (Nat.ne_zero_of_lt hsteps)
  induction rest generalizing front steps with
  | nil =>
    rw [behindBlanks, peek?_append]
    rfl
  | cons c rest ih =>
    rw [List.length_cons] at hsteps
    obtain ⟨steps, rfl⟩ := Nat.exists_eq_succ_of_ne_zero (show steps ≠ 0 by omega)
    rw [behindBlanks, peek?_append]
    by_cases hc : isBlank c = true
    · -- one character on, the walk is at the boundary behind it
      have hfront : byteLength (front ++ [c]) = byteLength front + c.utf8Size := by
        rw [byteLength_append, byteLength, byteLength, Nat.add_zero]
      have hnext := ih (front ++ [c]) steps (by omega)
      rw [List.append_assoc, List.singleton_append, hfront] at hnext
      rw [List.takeWhile_cons_of_pos hc, byteLength, ← Nat.add_assoc, ← hnext]
      exact if_pos hc
    · rw [List.takeWhile_cons_of_neg hc]
      exact if_neg hc

theorem fractionBytes_eq (cs : List Char) : fractionBytes cs = byteLength (fraction cs) := by
  by_cases hpoint : ∃ rest, cs = '.' :: rest
  · obtain ⟨rest, rfl⟩ := hpoint
    rw [fractionBytes, fraction_point]
    rcases rest with _ | ⟨c, rest⟩
    · rfl
    by_cases hc : c.isDigit = true
    · rw [if_pos (by simpa using hc), if_neg (by simp [hc])]
      rfl
    · rw [if_neg (by simpa using hc), if_pos (by simp [hc])]
      rfl
  · rw [fractionBytes.eq_2 cs fun rest h => hpoint ⟨rest, h⟩,
      fraction.eq_2 cs fun rest h => hpoint ⟨rest, h⟩]
    rfl

theorem fractionBytes_pos_iff {cs : List Char} : 0 < fractionBytes cs ↔ fraction cs ≠ [] := by
  rw [fractionBytes_eq]
  constructor
  · rintro hpos hnil
    rw [hnil] at hpos
    exact absurd hpos (by decide)
  · exact byteLength_pos

/-- A number is walked over as it is read. -/
theorem numberAt_append {front rest : List Char} :
    numberAt (front ++ rest) (byteLength front) =
      Walk.ended (number? (byteLength front) rest >>= fun found =>
        pure (⟨byteLength front, found.2⟩, byteLength front + byteLength found.1)) := by
  have hrest : rest.takeWhile Char.isDigit ++ rest.dropWhile Char.isDigit = rest :=
    List.takeWhile_append_dropWhile
  obtain ⟨behind, hbehind⟩ := fraction_prefix (rest.dropWhile Char.isDigit)
  have hafter : from? rest (bytesWhile Char.isDigit rest) =
      some (rest.dropWhile Char.isDigit) := by
    have hcut := from?_append (rest.takeWhile Char.isDigit) (rest.dropWhile Char.isDigit)
    rwa [hrest] at hcut
  have hspelling : upTo? rest (bytesWhile Char.isDigit rest +
      fractionBytes (rest.dropWhile Char.isDigit)) = some (numberSpelling rest) := by
    have hcut := upTo?_append (numberSpelling rest) behind
    rwa [numberSpelling, List.append_assoc, hbehind, hrest, byteLength_append,
      ← fractionBytes_eq] at hcut
  rw [numberAt, lift_bind (from?_append front rest)]
  dsimp only
  rw [lift_bind hafter, lift_bind hspelling, number?]
  dsimp only
  obtain hnone | ⟨part, hpart, -, hdigits⟩ := fraction_eq_nil_or (rest.dropWhile Char.isDigit)
  · have hwhole : numberSpelling rest = rest.takeWhile Char.isDigit := by
      rw [numberSpelling, hnone, List.append_nil]
    rw [if_neg (by rw [fractionBytes_pos_iff]; simp [hnone]), hnone, List.isEmpty_nil, if_pos rfl,
      hwhole, integer?]
    by_cases hbound : digitsValue (rest.takeWhile Char.isDigit) < integerBound
    · rw [if_pos hbound, if_pos hbound]
      rfl
    · rw [if_neg hbound, if_neg hbound]
      rfl
  · have hrun := @takeWhile_run _ _ ('.' :: part)
      (fun c hc => List.mem_takeWhile_imp (p := Char.isDigit) (l := rest) hc) (by simp)
    have hdecimal : decimalOf (rest.takeWhile Char.isDigit ++ '.' :: part) =
        Number.binary64.ofDecimal false (digitsValue (rest.takeWhile Char.isDigit ++ part))
          (1 - ('.' :: part).length) := by
      rw [decimalOf, hrun.2, List.filter_append, List.filter_cons_of_neg (by decide),
        List.filter_eq_self.mpr fun c hc => List.mem_takeWhile_imp hc,
        List.filter_eq_self.mpr hdigits]
    rw [if_pos (by rw [fractionBytes_pos_iff]; simp [hpart]), hpart, List.isEmpty_cons,
      if_neg Bool.false_ne_true, numberSpelling, hpart, hdecimal]
    rfl

/-- A word is walked over as it is read. -/
theorem wordAt_eq (start : Nat) (rest : List Char) : wordAt start rest =
    Walk.ended (.ok (⟨start, ofWord (String.ofList (rest.takeWhile isIdentifierChar))⟩,
      start + byteLength (rest.takeWhile isIdentifierChar))) := by
  have hname : upTo? rest (bytesWhile isIdentifierChar rest) =
      some (rest.takeWhile isIdentifierChar) := by
    have hcut := upTo?_append (rest.takeWhile isIdentifierChar) (rest.dropWhile isIdentifierChar)
    rwa [List.takeWhile_append_dropWhile] at hcut
  rw [wordAt, lift_bind hname]
  rfl

theorem length_eq_of_mem_symbols : ∀ s ∈ symbols, s.1.length = byteLength s.1 := by
  decide

/-- Behind white space, the walk takes the token that is read there. -/
theorem tokenAt_append {front before rest : List Char} {c : Char} {steps : Nat}
    (white : Blanks before) (hc : isBlank c = false)
    (hsteps : (before ++ c :: rest).length < steps) :
    tokenAt (front ++ (before ++ c :: rest)) steps (byteLength front) =
      Walk.ended (read? (byteLength front + byteLength before) (c :: rest) >>= fun found =>
        pure (some (⟨byteLength front + byteLength before, found.2⟩,
          byteLength front + byteLength before + byteLength found.1))) := by
  obtain ⟨htake, -⟩ := @takeWhile_run _ _ (c :: rest) white (by simpa using hc)
  have hstart := behindBlanks_append front hsteps
  rw [htake, ← byteLength_append] at hstart
  have hpeek := peek?_append (front ++ before) (c :: rest)
  have hrest := from?_append (front ++ before) (c :: rest)
  rw [List.append_assoc] at hpeek hrest
  rw [tokenAt, lift_bind hstart, lift_bind hpeek, ← byteLength_append]
  dsimp only [List.head?_cons]
  rw [lift_bind hrest]
  cases hsymbol : symbol? (c :: rest) with
  | some found =>
    obtain ⟨spelling, t⟩ := found
    have hmem : (spelling, t) ∈ symbols := List.mem_of_find?_eq_some hsymbol
    rw [read?_symbol hsymbol, ok_bind, ← length_eq_of_mem_symbols _ hmem]
    rfl
  | none =>
    by_cases hdigit : c.isDigit = true
    · rw [read?_digit hdigit, if_pos hdigit, ← List.append_assoc, numberAt_append]
      cases number? (byteLength (front ++ before)) (c :: rest) <;> rfl
    by_cases hword : startsWord c = true
    · rw [read?_letter hword, if_neg hdigit, if_pos hword, wordAt_eq]
      rfl
    · rw [read?_other hsymbol (by simpa using hdigit) (by simpa using hword), if_neg hdigit,
        if_neg hword]
      rfl

/-- Behind white space at the end, the walk takes no token. -/
theorem tokenAt_of_blanks (front : List Char) {cs : List Char} {steps : Nat} (white : Blanks cs)
    (hsteps : cs.length < steps) :
    tokenAt (front ++ cs) steps (byteLength front) = Walk.ended (.ok none) := by
  have htake : cs.takeWhile isBlank = cs := List.takeWhile_eq_self_iff.mpr white
  have hstart := behindBlanks_append front hsteps
  rw [htake, ← byteLength_append] at hstart
  have hpeek := peek?_append (front ++ cs) []
  rw [List.append_nil] at hpeek
  rw [tokenAt, lift_bind hstart, lift_bind hpeek]
  rfl

/-- The walk over the rest of a text has a result after a step for each character and one more, and
it is that of the scanner. -/
theorem tokensFrom_append (front : List Char) {cs : List Char} {steps fuel : Nat}
    (hsteps : cs.length < steps) (hfuel : cs.length ≤ fuel) :
    tokensFrom (front ++ cs) steps (byteLength front) =
      Walk.ended (scanFrom (byteLength front) cs fuel) := by
  obtain ⟨steps, rfl⟩ := Nat.exists_eq_succ_of_ne_zero (Nat.ne_zero_of_lt hsteps)
  induction fuel generalizing front cs steps with
  | zero =>
    obtain rfl := List.eq_nil_of_length_eq_zero (Nat.le_zero.mp hfuel)
    rw [tokensFrom, tokenAt_of_blanks front blanks_nil hsteps, ended_bind]
    rfl
  | succ fuel ih =>
    obtain white | ⟨before, c, rest, rfl, white, hc⟩ := blanks_or_exists cs
    · rw [tokensFrom, tokenAt_of_blanks front white hsteps, ended_bind, scanFrom_of_blanks white]
      rfl
    rw [tokensFrom, tokenAt_append white hc hsteps, scanFrom_step white hc]
    cases hread : read? (byteLength front + byteLength before) (c :: rest) with
    | error err => rfl
    | ok found =>
      obtain ⟨spelling, t⟩ := found
      obtain ⟨kind, hlongest⟩ := read?_eq_ok_iff.mp hread
      obtain ⟨behind, hbehind⟩ := hlongest.begins
      obtain ⟨d, ds, hspelling, -⟩ := hlongest.spelled.exists_cons
      -- the walk goes on behind the spelling, with less of the text before it
      have hlength : behind.length < (before ++ c :: rest).length := by
        rw [← hbehind, hspelling]
        simp only [List.length_append, List.length_cons]
        omega
      have hless : behind.length ≤ fuel := by omega
      obtain ⟨k, rfl⟩ := Nat.exists_eq_succ_of_ne_zero (show steps ≠ 0 by omega)
      have hnext := ih (front ++ (before ++ spelling)) hless k (by omega)
      simp only [byteLength_append, ← Nat.add_assoc, List.append_assoc] at hnext
      rw [ok_bind, ok_bind, ← hbehind]
      dsimp only
      rw [List.drop_left]
      show (tokensFrom _ _ _ >>= fun more => pure (_ :: more)) = _
      rw [hnext]
      cases scanFrom (byteLength front + byteLength before + byteLength spelling) behind fuel <;>
        rfl

/-! ### Every text -/

/-- What the scanner says of a text. Either its tokens start at boundaries of characters, one behind
the other, and cover the text, and their integers are in range; or there is a fault at a boundary of
a character, not behind the end. -/
inductive Scanned (text : String) : Except CompileError (List Placed) → Prop
  | tokens {toks : List Placed} (cover : Covers 0 text.toList toks)
      (increasing : toks.Pairwise fun p q => p.position < q.position)
      (boundaries : ∀ p ∈ toks, (String.Pos.Raw.mk p.position).IsValid text)
      (integers : ∀ p ∈ toks, ∀ n, p.token = .integer n → n ≤ 2 ^ 63 - 1) :
      Scanned text (.ok toks)
  | fault {position : Nat} {fault : SyntaxFault}
      (boundary : (String.Pos.Raw.mk position).IsValid text)
      (within : position ≤ text.utf8ByteSize) :
      Scanned text (.error (.parse position fault))

theorem scanned_scan (text : String) : Scanned text (scan text.toList) := by
  cases hscan : scan text.toList with
  | ok toks =>
    have hcover := scan_eq_ok_iff.mp hscan
    refine .tokens hcover hcover.increasing (fun p hp => ?_) (fun p hp n hn => ?_)
    · obtain ⟨front, back, hsplit, hposition⟩ := hcover.boundary hp
      rw [hposition, Nat.zero_add]
      exact isValid_of_append hsplit
    · obtain ⟨position, t⟩ := p
      obtain rfl : t = .integer n := hn
      have hbound := scanFrom_integer hscan position n hp
      rw [integerBound] at hbound
      omega
  | error err =>
    obtain ⟨front, back, fault, hsplit, rfl⟩ := scanFrom_eq_error hscan
    rw [Nat.zero_add]
    refine .fault (isValid_of_append hsplit) ?_
    have hsize : text.utf8ByteSize = byteLength front + byteLength back := by
      rw [← byteLength_append, ← hsplit, byteLength_eq, String.ofList_toList]
    omega

/-- **The scanner covers its text.** On every text the walk over its bytes ends after a step for
each character and one more, takes no slice off a boundary, and has the result of the scanner; this
result is tokens that cover the text, if there are any, or else a fault at a boundary of a
character. -/
theorem scan_covers (text : String) :
    (∀ steps, text.length < steps →
      tokensFrom text.toList steps 0 = Walk.ended (scan text.toList)) ∧
      Scanned text (scan text.toList) ∧
      ∀ toks, scan text.toList = .ok toks ↔ Covers 0 text.toList toks := by
  refine ⟨fun steps hsteps => ?_, scanned_scan text, fun _ => scan_eq_ok_iff⟩
  have hlength : text.toList.length < steps := by rwa [String.length_toList]
  exact tokensFrom_append [] hlength (Nat.le_refl _)

/-- White space of three bytes stands in front of a symbol of two. -/
theorem scan_covers_wideBlank :
    tokensFrom "x\u2003>= 12".toList 8 0 = Walk.ended (.ok
        [⟨0, .word "x"⟩, ⟨4, .comparison .ge⟩, ⟨7, .integer 12⟩]) ∧
      Covers 0 "x\u2003>= 12".toList
        [⟨0, .word "x"⟩, ⟨4, .comparison .ge⟩, ⟨7, .integer 12⟩] := by
  obtain ⟨hwalk, -, hcover⟩ := scan_covers "x\u2003>= 12"
  have hscan : scan "x\u2003>= 12".toList =
      .ok [⟨0, .word "x"⟩, ⟨4, .comparison .ge⟩, ⟨7, .integer 12⟩] := rfl
  refine ⟨?_, (hcover _).mp hscan⟩
  rw [hwalk 8 (by decide), hscan]

end Token

end TypedSql
