import GenomeScript.Proofs.Layout
import GenomeScript.Proofs.Runs

/-!
# Joining sources

Sources that are joined by a line feed are read one after the other. The tokens of the second
source are found again behind those of the first, further on by the bytes and further down by
the line endings that come before them. So if the first source can be read, the bodies of the
second follow its bodies, and a failure of the second is found again at the moved token. Only a
missing `start`, which has no place, stays as it is.

A carriage return at the end of the first source and the line feed that joins make one line
ending, which is why the line endings are counted in the first source with that line feed.
-/

namespace GenomeScript.Token

open GenomeScript.Text

/-- A token further down by some lines and further on by some bytes. -/
def moved (lines bytes : Nat) (token : Token) : Token :=
  { text := token.text
    line := token.line + lines
    span := ⟨token.span.first + bytes, token.span.past + bytes⟩ }

/-- The tokens of a text that begins further on are the tokens moved. -/
theorem scanFrom_add (lines bytes line offset : Nat) (cs : List Char) :
    scanFrom (line + lines) (offset + bytes) cs =
      (scanFrom line offset cs).map (moved lines bytes) := by
  fun_induction scanFrom line offset cs with
  | case1 => simp
  | case2 line offset c cs hblank ih =>
    rw [scanFrom_cons_of_isBlank _ _ _ hblank, Nat.add_right_comm line, Nat.add_right_comm offset, ih]
  | case3 line offset c cs hsolid word past ih =>
    rw [scanFrom_cons_of_not_isBlank _ _ _ (by simpa using hsolid), List.map_cons,
      Nat.add_right_comm offset, ih]
    rfl

/-- A blank that is no carriage return ends what is scanned before it, and the rest is scanned from
behind it. -/
theorem scanFrom_append_blank (line offset : Nat) (xs ys : List Char) {b : Char}
    (hb : isBlank b = true) (hreturn : b ≠ '\r') :
    scanFrom line offset (xs ++ b :: ys) = scanFrom line offset xs ++
      scanFrom (line + lineEndings (xs ++ [b])) (offset + width (xs ++ [b])) ys := by
  -- A word is dropped whole, so the induction is on the length of what stands before the blank.
  induction hn : xs.length using Nat.strongRecOn generalizing line offset xs with
  | ind n ih =>
    cases xs with
    | nil =>
      have hends : lineEnds b ys = lineEndings [b] := by
        rw [lineEndings_cons, lineEnds_of_ne_return hreturn ys []]
        rfl
      rw [List.nil_append, scanFrom_cons_of_isBlank _ _ _ hb, scanFrom_nil, hends]
      rfl
    | cons c xs =>
      rw [List.length_cons] at hn
      by_cases hc : isBlank c = true
      · have hends : lineEnds c (xs ++ b :: ys) = lineEnds c (xs ++ [b]) :=
          lineEnds_congr c (by cases xs <;> rfl)
        -- A carriage return right before a line feed ends no line, but no token follows it either.
        have hfirst : scanFrom (line + lineEnds c (xs ++ [b])) (offset + c.utf8Size) xs =
            scanFrom (line + lineEnds c xs) (offset + c.utf8Size) xs := by
          cases xs with
          | nil => simp
          | cons d xs => rw [lineEnds_congr c (by rfl : (d :: xs ++ [b]).head? = (d :: xs).head?)]
        rw [List.cons_append, scanFrom_cons_of_isBlank _ _ _ hc, scanFrom_cons_of_isBlank _ _ _ hc,
          hends, ih xs.length (by omega) _ _ xs rfl, hfirst, List.cons_append, lineEndings_cons,
          width_cons]
        simp only [Nat.add_assoc]
      · have hsolid : isBlank c = false := by simpa using hc
        obtain ⟨htake, hdrop⟩ := takeWhile_isSolid_append xs ys hb
        have hshort := length_dropWhile_isSolid_le xs
        have hword : c :: xs = (c :: xs.takeWhile isSolid) ++ xs.dropWhile isSolid := by simp
        have hparts : c :: xs ++ [b] =
            (c :: xs.takeWhile isSolid) ++ (xs.dropWhile isSolid ++ [b]) := by
          rw [← List.append_assoc, ← hword]
        have hlines : lineEndings (c :: xs ++ [b]) = lineEndings (xs.dropWhile isSolid ++ [b]) := by
          rw [hparts, lineEndings_append_of_solid fun _ => Run.isBlank_of_mem_word hsolid]
        have hwidth : width (c :: xs ++ [b]) =
            width (c :: xs.takeWhile isSolid) + width (xs.dropWhile isSolid ++ [b]) := by
          rw [hparts, width_append]
        rw [hlines, hwidth, List.cons_append, scanFrom_cons_of_not_isBlank _ _ _ hsolid,
          scanFrom_cons_of_not_isBlank _ _ _ hsolid, htake, hdrop,
          ih (xs.dropWhile isSolid).length (by omega) _ _ _ rfl, List.cons_append]
        simp only [Nat.add_assoc]

/-- The tokens of the second of two joined sources are moved behind those of the first. -/
theorem scan_append_newline (a b : String) :
    scan (a ++ "\n" ++ b) = scan a ++
      (scan b).map (moved (lineEndings (a ++ "\n").toList) (a.utf8ByteSize + 1)) := by
  have hcs : (a ++ "\n" ++ b).toList = a.toList ++ '\n' :: b.toList := by simp
  have hwidth : width (a.toList ++ ['\n']) = a.utf8ByteSize + 1 := by
    rw [width_append, width_toList]
    rfl
  rw [scan, hcs, scanFrom_append_blank _ _ _ _ (by decide) (by decide), hwidth, scanFrom_add,
    String.toList_append]
  rfl

end GenomeScript.Token

namespace GenomeScript

open Token (lineEndings)

/-- A failure with its line and its blamed token moved; a missing `start` has no token to move. -/
def Failure.moved (lines bytes : Nat) (failure : Failure) : Failure :=
  if failure.fault = .missingStart then failure
  else ⟨failure.fault, failure.line + lines, failure.blamed.moved lines bytes⟩

namespace Genome

/-- Moved tokens are read as the same bodies or fail with the failure moved. -/
theorem bodiesOfTokens_map_moved (lines bytes : Nat) (tokens : List Token) :
    bodiesOfTokens (tokens.map (Token.moved lines bytes)) =
      (bodiesOfTokens tokens).mapError (Failure.moved lines bytes) := by
  have htext (token : Token) : (token.moved lines bytes).text = token.text := rfl
  have hrelated := related_bodiesOfTokens (tokens.map (Twin.along _ htext))
  rw [Twin.map_left_along, Twin.map_right_along] at hrelated
  rcases hrelated.error_or_ok with ⟨f, g, hf, hg, halike⟩ | ⟨bodies, _, hl, hr, rfl⟩
  · rw [hf, hg]
    rcases halike.blamed_along with ⟨rfl, rfl⟩ | ⟨fault, token, hinner, _, rfl, rfl⟩
    · rfl
    · have hmoved : (Failure.blame fault token).moved lines bytes =
          .blame fault (token.moved lines bytes) := if_neg (Fault.ne_of_isInner hinner).1
      exact congrArg Except.error hmoved.symm
  · rw [hl, hr]
    rfl

/-- The bodies of a source that can be read are followed by those of the source joined to it. -/
theorem bodiesOfTokens_scan_append_newline {a : String} {bodies : List Command}
    (ha : bodiesOfTokens (Token.scan a) = .ok bodies) (b : String) :
    bodiesOfTokens (Token.scan (a ++ "\n" ++ b)) =
      ((bodiesOfTokens (Token.scan b)).mapError
        (Failure.moved (lineEndings (a ++ "\n").toList) (a.utf8ByteSize + 1))).map (bodies ++ ·) := by
  rw [Token.scan_append_newline, bodiesOfTokens_append_of_ok ha, bodiesOfTokens_map_moved]

/-- A source that can be read is followed by the bodies of the source that is joined to it, and
the bodies of both run one after the other. A failure of the joined source is the same failure of
the whole, blamed on the token moved, unless `start` is missing. -/
theorem ofSource_append_newline {a : String} {first : Genome} (ha : ofSource a = .ok first)
    (b : String) :
    (∀ second, ofSource b = .ok second →
      ofSource (a ++ "\n" ++ b) = .ok ⟨first.bodies ++ second.bodies⟩ ∧
      ∀ store, (Genome.mk (first.bodies ++ second.bodies)).run store = second.run (first.run store)) ∧
    ∀ failure, ofSource b = .error failure → ∃ whole, ofSource (a ++ "\n" ++ b) = .error whole ∧
      whole.fault = failure.fault ∧ (failure.fault = .missingStart → whole = failure) ∧
      (failure.fault ≠ .missingStart →
        whole.blamed.text = failure.blamed.text ∧
        whole.blamed.span = ⟨failure.blamed.span.first + (a.utf8ByteSize + 1),
          failure.blamed.span.past + (a.utf8ByteSize + 1)⟩ ∧
        whole.line = failure.line + lineEndings (a ++ "\n").toList ∧
        whole.blamed.line = failure.blamed.line + lineEndings (a ++ "\n").toList) := by
  obtain ⟨bodies, hbodies, rfl⟩ := Except.map_eq_ok_iff.mp ha
  have hjoined := bodiesOfTokens_scan_append_newline hbodies b
  constructor
  · intro second hb
    obtain ⟨others, hothers, rfl⟩ := Except.map_eq_ok_iff.mp hb
    rw [hothers] at hjoined
    exact ⟨Except.map_eq_ok_iff.mpr ⟨_, hjoined, rfl⟩, run_append bodies others⟩
  · intro failure hb
    rw [Except.map_eq_error_iff.mp hb] at hjoined
    refine ⟨_, Except.map_eq_error_iff.mpr hjoined, ?_⟩
    by_cases hstart : failure.fault = .missingStart
    · rw [Failure.moved, if_pos hstart]
      exact ⟨rfl, fun _ => rfl, fun h => absurd hstart h⟩
    · rw [Failure.moved, if_neg hstart]
      exact ⟨rfl, fun h => absurd h hstart, fun _ => ⟨rfl, rfl, rfl, rfl⟩⟩

/-- A carriage return that meets the line feed of the seam ends one line with it. -/
theorem ofSource_append_newline_carriage_return :
    ofSource "start\u20035 .x store stop\r" =
        .ok ⟨[.sequence [.store (.address "x") (.number 5)]]⟩ ∧
      ofSource "start 1 2 stop" = .error (.blame (.leftoverOperands 2) ⟨"2", 1, ⟨8, 9⟩⟩) ∧
      ∃ whole, ofSource ("start\u20035 .x store stop\r" ++ "\n" ++ "start 1 2 stop") = .error whole ∧
        whole.blamed.span = ⟨33, 34⟩ ∧ whole.line = 2 := by
  have ha : ofSource "start\u20035 .x store stop\r" =
      .ok ⟨[.sequence [.store (.address "x") (.number 5)]]⟩ := by decide +kernel
  have hb : ofSource "start 1 2 stop" = .error (.blame (.leftoverOperands 2) ⟨"2", 1, ⟨8, 9⟩⟩) := by
    decide +kernel
  obtain ⟨whole, hwhole, _, _, hmoved⟩ := (ofSource_append_newline ha "start 1 2 stop").2 _ hb
  obtain ⟨_, hspan, hline, _⟩ := hmoved nofun
  exact ⟨ha, hb, whole, hwhole, hspan, hline⟩

end Genome

end GenomeScript
