namespace ThemeSheet.Text

def isHighSurrogate (n : Nat) : Bool :=
  0xD800 ≤ n && n < 0xDC00

def isLowSurrogate (n : Nat) : Bool :=
  0xDC00 ≤ n && n < 0xE000

/-- The two code units of a character outside the basic plane. -/
def surrogatePair (n : Nat) : Nat × Nat :=
  (0xD800 + (n - 0x10000) / 0x400, 0xDC00 + (n - 0x10000) % 0x400)

def joinPair (high low : Nat) : Nat :=
  0x10000 + (high - 0xD800) * 0x400 + (low - 0xDC00)

/-- The UTF-16 code units of a character. -/
def utf16Units (c : Char) : List Nat :=
  if c.toNat < 0x10000 then [c.toNat]
  else [(surrogatePair c.toNat).1, (surrogatePair c.toNat).2]

/-- The text of a sequence of code points in which surrogates may occur. A high surrogate
directly before a low one makes one character; any other surrogate is replaced. -/
def joinSurrogates : List Nat → List Char
  | [] => []
  | [n] => [if isHighSurrogate n || isLowSurrogate n then '\uFFFD' else Char.ofNat n]
  | n :: m :: rest =>
    if isHighSurrogate n && isLowSurrogate m then Char.ofNat (joinPair n m) :: joinSurrogates rest
    else
      (if isHighSurrogate n || isLowSurrogate n then '\uFFFD' else Char.ofNat n) ::
        joinSurrogates (m :: rest)

theorem joinPair_surrogatePair {n : Nat} (h : 0x10000 ≤ n) :
    joinPair (surrogatePair n).1 (surrogatePair n).2 = n := by
  unfold joinPair surrogatePair
  dsimp only
  omega

end ThemeSheet.Text
