import MenuPages.Checksum.Md5
import MenuPages.Text.Utf8

/-!
# Slugs

A short text that stands for a content: the first six bytes of its MD5 digest, in eight characters
that may stand in a URL as they are.
-/

namespace MenuPages.Slug

/-- The 64 characters, each for six bits. -/
def alphabet : Text := "ABCDEFGHIJKLMNOPQRSTUVWXYZabcdefghijklmnopqrstuvwxyz0123456789-_".toList

/-- The character for a number below 64. -/
def character (n : Nat) : Char := alphabet[n % 64]?.getD '_'

/-- Bytes in six-bit characters, four for three bytes, without padding. -/
def base64 : List UInt8 → Text
  | p :: q :: r :: bytes =>
    let n := p.toNat * 65536 + q.toNat * 256 + r.toNat
    [character (n / 262144), character (n / 4096), character (n / 64), character n] ++ base64 bytes
  | [p, q] =>
    let n := p.toNat * 65536 + q.toNat * 256
    [character (n / 262144), character (n / 4096), character (n / 64)]
  | [p] => [character (p.toNat / 4), character (p.toNat * 16)]
  | [] => []

/-- The slug of a byte sequence. -/
def ofBytes (bytes : List UInt8) : Text := base64 ((Md5.digest bytes).take 6)

/-- The slug of a text. -/
def ofText (s : Text) : Text := ofBytes s.encode

end MenuPages.Slug
