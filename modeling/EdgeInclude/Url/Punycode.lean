import EdgeInclude.Text.Basic

/-!
# Labels of host names in ASCII

A label with characters outside ASCII is written with the mark `xn--`, its ASCII characters, and
the places and values of the others as a number in base 36 with a varying threshold.
-/

namespace EdgeInclude.Punycode

/-- A digit of base 36. -/
def digit (d : Nat) : Char := Char.ofNat (if d < 26 then 0x61 + d else 0x16 + d)

/-- The threshold of a digit. -/
def threshold (k bias : Nat) : Nat :=
  if k ≤ bias then 1 else if bias + 26 ≤ k then 26 else k - bias

/-- A number in digits of varying weight. -/
def digits (bias : Nat) : (fuel k q : Nat) → Text
  | 0, _, _ => []
  | fuel + 1, k, q =>
    let t := threshold k bias
    if q < t then [digit q]
    else digit (t + (q - t) % (36 - t)) :: digits bias fuel (k + 36) ((q - t) / (36 - t))

/-- Halves a difference until it is small. -/
def reduce : (fuel delta k : Nat) → Nat × Nat
  | 0, delta, k => (delta, k)
  | fuel + 1, delta, k => if 455 < delta then reduce fuel (delta / 35) (k + 36) else (delta, k)

/-- The bias after a number of characters. -/
def adapt (delta count : Nat) (first : Bool) : Nat :=
  let d := if first then delta / 700 else delta / 2
  let (d, k) := reduce 32 (d + d / count) 0
  k + 36 * d / (d + 38)

/-- A pass over a label for the code point `m`: each place of it is written as a number. -/
def encodePass (s : Text) (m : Nat) (state : Nat × Nat × Nat × Text) : Nat × Nat × Nat × Text :=
  s.foldl (fun (delta, bias, done, out) c =>
    if c.toNat < m then (delta + 1, bias, done, out)
    else if c.toNat = m then
      (0, adapt delta (done + 1) (out.isEmpty || done == (s.filter (·.toNat < 0x80)).length),
        done + 1, out ++ digits bias 32 36 delta)
    else (delta, bias, done, out)) state

/-- The code points outside ASCII, each once, in order. -/
def codePoints (s : Text) : List Nat :=
  ((s.map Char.toNat).filter (0x80 ≤ ·)).foldr (fun n ns =>
    if ns.contains n then ns
    else ns.takeWhile (· < n) ++ n :: ns.dropWhile (· < n)) []

/-- A label with characters outside ASCII, without the mark. -/
def encode (s : Text) : Text :=
  let basic := s.filter (·.toNat < 0x80)
  let start := (0, 72, basic.length, ([] : Text))
  let (_, _, _, _, out) := (codePoints s).foldl (fun (n, delta, bias, done, out) m =>
    let (delta, bias, done, out) := encodePass s m (delta + (m - n) * (done + 1), bias, done, out)
    (m + 1, delta + 1, bias, done, out)) (0x80, start)
  (if basic.isEmpty then [] else basic ++ ['-']) ++ out

/-- A label in ASCII. -/
def label (s : Text) : Text :=
  if s.all (·.toNat < 0x80) then s else "xn--".toList ++ encode s

end EdgeInclude.Punycode
