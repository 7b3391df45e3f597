/-
The address parsers of `app_common/mqtt/utils.c`.
-/
import EspMisc.Mqtt.Msg

namespace EspMisc
namespace Mqtt

/-- The inner loop of `UTILS_StrToIP`: the number and what follows the character
that ended it.  The string ends in a NUL, which only the last number accepts. -/
def strToIPNumber (last : Bool) : Bytes → Int → Option (Int × Bytes)
  | [], n => if last then some (n, []) else none
  | c :: start, n =>
    if 48 ≤ c ∧ c ≤ 57 then strToIPNumber last start (i32 (i32 (n * 10) + (c.toNat - 48)))
    else if (last = false ∧ c = 46) ∨ last = true then some (n, start)
    else none

/-- The outer loop, with the number of bytes still to be read. -/
def strToIPBytes : Nat → Bytes → Option Bytes
  | 0, _ => some []
  | i + 1, str =>
    match strToIPNumber (i == 0) str 0 with
    | none => none
    | some (n, start) =>
      if n ≥ 256 then none
      else (strToIPBytes i start).map (UInt8.ofNat (n % 256).toNat :: ·)

/-- The address of a string the parser accepts. -/
def utilsStrToIP (str : Bytes) : Option Bytes := strToIPBytes 4 str

/-- The loop of `UTILS_IsIPV4` and the checks after it.  The accumulator is a byte, and
the sum is cut to a byte before it is compared. -/
def isIPV4Loop : Bytes → UInt8 → UInt8 → UInt8 → Bool
  | [], segs, chcnt, _ =>
    if segs ≠ 3 then false
    else if chcnt = 0 then false
    else true
  | c :: str, segs, chcnt, accum =>
    if c = 46 then
      if chcnt = 0 then false
      else if segs + 1 = 4 then false
      else isIPV4Loop str (segs + 1) 0 0
    else if c < 48 ∨ c > 57 then false
    else if (accum * 10 + c - 48).toNat > 255 then false
    else isIPV4Loop str segs (chcnt + 1) (accum * 10 + c - 48)

/-- `none` is the null pointer. -/
def utilsIsIPV4 : Option Bytes → Bool
  | none => false
  | some str => isIPV4Loop str 0 0 0

end Mqtt
end EspMisc
