/-
**Scores of sorted sets.**

A `Score` is a binary64 value that is not a NaN and whose zero is positive, ordered by its total
order. `Score.toBytes` is the text a client sees; values that are not small integers go through
`Fpconv.digits`, the Grisu2 generator with the table of powers `Fpconv.powers`.
-/

import Sider.Lib.Bytes
import Sider.Lib.Float64

namespace Sider

open Float64

/-! ### Shortest digits -/

namespace Fpconv

/-- A scaled fraction: `fraction · 2 ^ exponent`. -/
structure Fp where
  fraction : Nat
  exponent : Int

def Fp.normalize (x : Fp) : Fp :=
  let shift := 63 - Nat.log2 x.fraction
  ⟨x.fraction <<< shift, x.exponent - shift⟩

def Fp.multiply (x y : Fp) : Fp :=
  ⟨(x.fraction * y.fraction + 2 ^ 63) >>> 64, x.exponent + y.exponent + 64⟩

/-- Cached powers of ten, eight decades apart. -/
def powers : List (Nat × Int) :=
  [(18054884314459144840, -1220), (13451937075301367670, -1193), (10022474136428063862, -1166),
   (14934650266808366570, -1140), (11127181549972568877, -1113), (16580792590934885855, -1087),
   (12353653155963782858, -1060), (18408377700990114895, -1034), (13715310171984221708, -1007),
   (10218702384817765436, -980), (15227053142812498563, -954), (11345038669416679861, -927),
   (16905424996341287883, -901), (12595523146049147757, -874), (9384396036005875287, -847),
   (13983839803942852151, -821), (10418772551374772303, -794), (15525180923007089351, -768),
   (11567161174868858868, -741), (17236413322193710309, -715), (12842128665889583758, -688),
   (9568131466127621947, -661), (14257626930069360058, -635), (10622759856335341974, -608),
   (15829145694278690180, -582), (11793632577567316726, -555), (17573882009934360870, -529),
   (13093562431584567480, -502), (9755464219737475723, -475), (14536774485912137811, -449),
   (10830740992659433045, -422), (16139061738043178685, -396), (12024538023802026127, -369),
   (17917957937422433684, -343), (13349918974505688015, -316), (9946464728195732843, -289),
   (14821387422376473014, -263), (11042794154864902060, -236), (16455045573212060422, -210),
   (12259964326927110867, -183), (18268770466636286478, -157), (13611294676837538539, -130),
   (10141204801825835212, -103), (15111572745182864684, -77), (11258999068426240000, -50),
   (16777216000000000000, -24), (12500000000000000000, 3), (9313225746154785156, 30),
   (13877787807814456755, 56), (10339757656912845936, 83), (15407439555097886824, 109),
   (11479437019748901445, 136), (17105694144590052135, 162), (12744735289059618216, 189),
   (9495567745759798747, 216), (14149498560666738074, 242), (10542197943230523224, 269),
   (15709099088952724970, 295), (11704190886730495818, 322), (17440603504673385349, 348),
   (12994262207056124023, 375), (9681479787123295682, 402), (14426529090290212157, 428),
   (10748601772107342003, 455), (16016664761464807395, 481), (11933345169920330789, 508),
   (17782069995880619868, 534), (13248674568444952270, 561), (9871031767461413346, 588),
   (14708983551653345445, 614), (10959046745042015199, 641), (16330252207878254650, 667),
   (12166986024289022870, 694), (18130221999122236476, 720), (13508068024458167312, 747),
   (10064294952495520794, 774), (14996968138956309548, 800), (11173611982879273257, 827),
   (16649979327439178909, 853), (12405201291620119593, 880), (9242595204427927429, 907),
   (13772540099066387757, 933), (10261342003245940623, 960), (15290591125556738113, 986),
   (11392378155556871081, 1013), (16975966327722178521, 1039), (12648080533535911531, 1066)]

/-- Move along the table until the scaled exponent lies in `[-60, -32]`. -/
def selectPower (upper : Int) : Nat → Nat → Nat
  | 0, index => index
  | fuel + 1, index =>
    let exponent := upper + (powers.getD index (0, 0)).2 + 64
    if exponent < -60 then selectPower upper fuel (index + 1)
    else if -32 < exponent then selectPower upper fuel (index - 1)
    else index

/-- Step the last digit down towards the value. Digits are kept last first. -/
def round (delta unit distance : Nat) : Nat → Nat → List Nat → List Nat
  | 0, _, digits => digits
  | fuel + 1, remainder, digits =>
    if remainder < distance ∧ unit ≤ delta - remainder ∧
        (remainder + unit < distance ∨ remainder + unit - distance < distance - remainder) then
      round delta unit distance fuel (remainder + unit) (digits.modifyHead (· - 1))
    else digits

def push (digit : Nat) (digits : List Nat) : List Nat :=
  if digit ≠ 0 ∨ digits ≠ [] then digit :: digits else digits

/-- Digits below the decimal point of the scaled upper bound. -/
def fractionDigits (shift distance : Nat) (decimalPower : Int) :
    Nat → Nat → Int → Nat → Nat → List Nat → List Nat × Int
  | 0, _, remaining, _, _, digits => (digits, decimalPower + remaining)
  | fuel + 1, unit, remaining, fractional, delta, digits =>
    let fractional := fractional * 10
    let delta := delta * 10
    let remaining := remaining - 1
    let digits := push (fractional >>> shift) digits
    let fractional := fractional % 2 ^ shift
    if fractional < delta then
      (round delta (2 ^ shift) (distance * unit) 10 fractional digits, decimalPower + remaining)
    else fractionDigits shift distance decimalPower fuel (unit * 10) remaining fractional delta digits

/-- Digits of the integer part of the scaled upper bound, ten at most. -/
def integerDigits (shift distance delta fractional : Nat) (decimalPower : Int) :
    Nat → Nat → Nat → List Nat → List Nat × Int
  | 0, _, _, digits =>
    fractionDigits shift distance decimalPower 20 10 0 fractional delta digits
  | remaining + 1, divisor, integer, digits =>
    let digits := push (integer / divisor) digits
    let integer := integer % divisor
    let remainder := (integer <<< shift) + fractional
    if remainder ≤ delta then
      (round delta (divisor <<< shift) distance 10 remainder digits, decimalPower + remaining)
    else integerDigits shift distance delta fractional decimalPower remaining (divisor / 10) integer
      digits

/-- Significant digits and power of ten of a positive, finite number. -/
def digits (value : F64) : List Nat × Int :=
  let encodedExponent : Nat := value.magnitude / 2 ^ 52
  let hidden : Nat := 2 ^ 52
  let w : Fp :=
    ⟨value.magnitude % hidden + if encodedExponent ≠ 0 then hidden else 0,
      if encodedExponent ≠ 0 then encodedExponent - 1075 else -1074⟩
  let upper := Fp.normalize ⟨w.fraction * 2 + 1, w.exponent - 1⟩
  let shift : Nat := if w.fraction = hidden then 2 else 1
  let lower : Fp :=
    ⟨(w.fraction * 2 ^ shift - 1) * 2 ^ (w.exponent - shift - upper.exponent).toNat, upper.exponent⟩
  -- The constant is the double nearest to log10 2 below it.
  let approximation := (F64.mul (F64.ofInt (-(upper.exponent + 87)))
    (F64.ofBits 0x3fd34413509f79fe)).trunc
  let index := selectPower upper.exponent powers.length ((approximation + 348).tdiv 8).toNat
  let power : Fp := ⟨(powers.getD index (0, 0)).1, (powers.getD index (0, 0)).2⟩
  let w := w.normalize.multiply power
  let upper := upper.multiply power
  let lower := lower.multiply power
  let upperFraction := upper.fraction - 1
  let lowerFraction := lower.fraction + 1
  let decimalPower : Int := 348 - index * 8
  let shift := (-upper.exponent).toNat
  let result := integerDigits shift (upperFraction - w.fraction) (upperFraction - lowerFraction)
    (upperFraction % 2 ^ shift) decimalPower 10 1000000000 (upperFraction >>> shift) []
  (result.1.reverse, result.2)

end Fpconv

/-! ### Scores -/

/-- A score: not a NaN, and zero is the positive one. -/
structure Score where
  value : F64
  notNaN : value.isNaN = false
  canonical : value.isZero = true → value.negative = false
  deriving DecidableEq

namespace Score

theorem value_injective : Function.Injective value := by
  rintro ⟨_, _, _⟩ ⟨_, _, _⟩ same
  cases same
  rfl

instance : LinearOrder Score := LinearOrder.lift' value value_injective

/-- The canonical score of a double; a NaN has none. -/
def new (value : F64) : Option Score :=
  if nan : value.isNaN = false then
    if zero : value.isZero = true then some ⟨F64.ofBits 0, by decide, fun _ => by decide⟩
    else some ⟨value, nan, fun isZero => absurd isZero zero⟩
  else none

def digitText (digits : List Nat) : Bytes :=
  digits.map fun digit => Fin.ofNat 256 (48 + digit)

def zeros (count : Int) : Bytes :=
  List.replicate count.toNat 48

def toBytes (score : Score) : Bytes :=
  let value := score.value
  if value.isZero then Bytes.ascii "0"
  else if value.isInfinite then Bytes.ascii (if value.negative then "-inf" else "inf")
  -- Integers up to 2^62 print exactly.
  else if value.magnitude ≤ 0x43d0000000000000 && value.isIntegral then Bytes.decimal value.trunc
  else
    let (digits, power) := Fpconv.digits (F64.signed false value.magnitude)
    let text := digitText digits
    let length : Int := digits.length
    let exponent := power + length - 1
    let sign := if value.negative then Bytes.ascii "-" else []
    if 0 ≤ power ∧ exponent.natAbs < length + 7 then sign ++ text ++ zeros power
    else if power < 0 ∧ (-7 < power ∨ exponent.natAbs < 4) then
      let point := length + power
      if point ≤ 0 then sign ++ Bytes.ascii "0." ++ zeros (-point) ++ text
      else sign ++ text.take point.toNat ++ Bytes.ascii "." ++ text.drop point.toNat
    else
      sign ++ text.take 1 ++ (if 1 < text.length then Bytes.ascii "." ++ text.drop 1 else [])
        ++ Bytes.ascii "e" ++ (if 0 ≤ exponent then Bytes.ascii "+" else [])
        ++ Bytes.decimal exponent

end Score

end Sider
