/-!
The code page of old file names: ASCII below 128, and 128 other characters above.
-/

namespace Chip8VM.CodePage437

def upperHalf : Array Char :=
  ("ÇüéâäàåçêëèïîìÄÅ" ++ "ÉæÆôöòûùÿÖÜ¢£¥₧ƒ" ++ "áíóúñÑªº¿⌐¬½¼¡«»" ++ "░▒▓│┤╡╢╖╕╣║╗╝╜╛┐"
    ++ "└┴┬├─┼╞╟╚╔╩╦╠═╬╧" ++ "╨╤╥╙╘╒╓╫╪┘┌█▄▌▐▀" ++ "αßΓπΣσµτΦΘΩδ∞φε∩"
    ++ "≡±≥≤⌠⌡÷≈°∙·√ⁿ²■\u00a0").toList.toArray

def char (byte : UInt8) : Char :=
  if byte < 128 then Char.ofNat byte.toNat else upperHalf[byte.toNat - 128]?.getD '\ufffd'

def decode (bytes : List UInt8) : List Char := bytes.map char

end Chip8VM.CodePage437
