/-!
# Densely packed decimal digits

A *declet* holds three decimal digits in ten bits. Digits below eight take three bits each; an
indicator tells which of the three digits are eight or nine and where their bits are kept.
-/

namespace PowerLift.Declet

/-- Bit `i` of a declet, or of a digit. -/
def bit (d i : Nat) : Nat := (d >>> i) % 2

/-- A digit below eight from three bits. -/
def small (a b c : Nat) : Nat := 4 * a + 2 * b + c

/-- A digit of eight or nine from its last bit. -/
def large (c : Nat) : Nat := 8 + c

/-- The three digits of a declet, the most significant first. -/
def digits (d : Nat) : Nat × Nat × Nat :=
  let (p, q, r) := (bit d 9, bit d 8, bit d 7)
  let (s, t, u) := (bit d 6, bit d 5, bit d 4)
  let (v, w, x, y) := (bit d 3, bit d 2, bit d 1, bit d 0)
  match v, w, x, s, t with
  | 0, _, _, _, _ => (small p q r, small s t u, small w x y)
  | _, 0, 0, _, _ => (small p q r, small s t u, large y)
  | _, 0, _, _, _ => (small p q r, large u, small s t y)
  | _, _, 0, _, _ => (large r, small s t u, small p q y)
  | _, _, _, 0, 0 => (large r, large u, small p q y)
  | _, _, _, 0, _ => (large r, small p q u, large y)
  | _, _, _, _, 0 => (small p q r, large u, large y)
  | _, _, _, _, _ => (large r, large u, large y)

/-- The number that a declet holds; bits above the tenth are ignored. -/
def toNat (d : Nat) : Nat :=
  let (h, m, l) := digits d
  100 * h + 10 * m + l

/-- The declet of three digits. -/
def ofDigits (h m l : Nat) : Nat :=
  let (h3, m3, l3) := (h % 8, m % 8, l % 8)
  let (h1, m1, l1) := (h % 2, m % 2, l % 2)
  let (m2, l2) := (m / 2 % 4, l / 2 % 4)
  let (pqr, stu, wxy, v) : Nat × Nat × Nat × Nat := match h / 8, m / 8, l / 8 with
    | 0, 0, 0 => (h3, m3, l3, 0)
    | 0, 0, _ => (h3, m3, l1, 1)
    | 0, _, 0 => (h3, 2 * l2 + m1, 2 + l1, 1)
    | 0, _, _ => (h3, 4 + m1, 6 + l1, 1)
    | _, 0, 0 => (2 * l2 + h1, m3, 4 + l1, 1)
    | _, 0, _ => (2 * m2 + h1, 2 + m1, 6 + l1, 1)
    | _, _, 0 => (2 * l2 + h1, m1, 6 + l1, 1)
    | _, _, _ => (h1, 6 + m1, 6 + l1, 1)
  128 * pqr + 16 * stu + 8 * v + wxy

/-- The declet of the last three digits of a number. -/
def ofNat (n : Nat) : Nat := ofDigits (n / 100 % 10) (n / 10 % 10) (n % 10)

/-- Combines five groups, the least significant first, each `width` bits wide. -/
def gather (width : Nat) (group : Nat → Nat) : Nat :=
  (List.range 5).foldl (fun acc k => acc ||| (group k <<< (width * k))) 0

/-- Fifteen packed digits from five declets. -/
def toPacked (v : BitVec 64) : BitVec 64 :=
  .ofNat 64 (gather 12 fun k =>
    let n := toNat ((v.toNat >>> (10 * k)) % 1024)
    (n / 100) * 256 + (n / 10 % 10) * 16 + n % 10)

/-- Five declets from fifteen packed digits; a digit above nine counts modulo ten. -/
def ofPacked (v : BitVec 64) : BitVec 64 :=
  .ofNat 64 (gather 10 fun k =>
    let digit (i : Nat) : Nat := (v.toNat >>> (12 * k + 4 * i)) % 16 % 10
    ofNat (digit 2 * 100 + digit 1 * 10 + digit 0))

end PowerLift.Declet
