import WordAsm.Text.Numeral

/-! Positions in source files. Rows and columns count from one; a line feed ends a row and every
other character takes one column. -/

namespace WordAsm

structure Position where
  file : String
  row : Int
  col : Int
  deriving DecidableEq, Repr

namespace Position

/-- Where a file starts. -/
def start (file : String) : Position :=
  ⟨file, 1, 1⟩

/-- No place in any source. -/
def nowhere : Position :=
  ⟨"", 0, 0⟩

def isValid (pos : Position) : Bool :=
  0 < pos.row

/-- The position behind a character. -/
def step (pos : Position) (c : Char) : Position :=
  if c = '\n' then { pos with row := pos.row + 1, col := 1 } else { pos with col := pos.col + 1 }

/-- The position behind a text. -/
def after (pos : Position) (text : List Char) : Position :=
  text.foldl step pos

def render (pos : Position) : String :=
  let place := Text.signed pos.row ++ ":" ++ Text.signed pos.col
  if pos.file = "" then place else pos.file ++ ":" ++ place

end Position

end WordAsm
