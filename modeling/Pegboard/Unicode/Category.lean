/-!
# General categories

Every code point belongs to one of thirty general categories.  A category has an abbreviation of
two letters, the first of which names its major class.
-/

namespace Pegboard.Unicode

/-- The general categories, by their abbreviations. -/
inductive GeneralCategory where
  | lu | ll | lt | lm | lo
  | mn | mc | me
  | nd | nl | no
  | pc | pd | ps | pe | pi | pf | po
  | sm | sc | sk | so
  | zs | zl | zp
  | cc | cf | cs | co | cn
  deriving DecidableEq, Repr, Inhabited

namespace GeneralCategory

/-- The abbreviation of a category: a capital for the major class, then a small letter. -/
def abbreviation : GeneralCategory → String
  | .lu => "Lu"
  | .ll => "Ll"
  | .lt => "Lt"
  | .lm => "Lm"
  | .lo => "Lo"
  | .mn => "Mn"
  | .mc => "Mc"
  | .me => "Me"
  | .nd => "Nd"
  | .nl => "Nl"
  | .no => "No"
  | .pc => "Pc"
  | .pd => "Pd"
  | .ps => "Ps"
  | .pe => "Pe"
  | .pi => "Pi"
  | .pf => "Pf"
  | .po => "Po"
  | .sm => "Sm"
  | .sc => "Sc"
  | .sk => "Sk"
  | .so => "So"
  | .zs => "Zs"
  | .zl => "Zl"
  | .zp => "Zp"
  | .cc => "Cc"
  | .cf => "Cf"
  | .cs => "Cs"
  | .co => "Co"
  | .cn => "Cn"

/-- All categories. -/
def all : List GeneralCategory :=
  [.lu, .ll, .lt, .lm, .lo, .mn, .mc, .me, .nd, .nl, .no, .pc, .pd, .ps, .pe, .pi, .pf, .po,
    .sm, .sc, .sk, .so, .zs, .zl, .zp, .cc, .cf, .cs, .co, .cn]

theorem mem_all (c : GeneralCategory) : c ∈ all := by
  cases c <;> decide

/-- The name of the major class of a category: the first letter of its abbreviation. -/
def majorClass (c : GeneralCategory) : String := (c.abbreviation.take 1).toString

/-- Whether `name` names the category `c`: by its abbreviation, or by its major class. -/
def isNamed (c : GeneralCategory) (name : String) : Bool :=
  c.abbreviation == name || c.majorClass == name

end GeneralCategory

end Pegboard.Unicode
