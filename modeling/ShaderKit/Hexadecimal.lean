/-!
# Hexadecimal text

Bytes written as two lowercase digits each, most significant digit first.
-/

namespace ShaderKit.Hexadecimal

def digits (b : UInt8) : List Char :=
  [Nat.digitChar (b.toNat / 16), Nat.digitChar (b.toNat % 16)]

def text (bytes : List UInt8) : String := String.ofList (bytes.flatMap digits)

end ShaderKit.Hexadecimal
