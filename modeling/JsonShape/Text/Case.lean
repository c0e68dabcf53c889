import JsonShape.Text.CaseTable
import JsonShape.Text.CodePoint
/-!
# JsonShape.Text.Case

Capitalization: the first code point goes to title case and the others to lower case. A capital
sigma becomes final when a letter stands before it and none behind it, passed-over code points
aside.
-/

namespace JsonShape

def CodePoint.isUpper (c : CodePoint) : Bool := CaseTable.upper.contains c.toNat

namespace Text

/-- The special mapping if there is one, else the single one, else the code point itself. -/
def mapCase (special : List (Nat × List Nat)) (runs : List CaseTable.Run) (c : CodePoint) : Text :=
  match special.find? fun s => s.1 = c.toNat with
  | some (_, ns) => ns.map CodePoint.ofNat
  | none => [CodePoint.ofNat ((CaseTable.Run.map? runs c.toNat).getD c.toNat)]

def title (c : CodePoint) : Text := mapCase CaseTable.titleSpecial CaseTable.titleRuns c

def lower (c : CodePoint) : Text := mapCase CaseTable.lowerSpecial CaseTable.lowerRuns c

/-- Whether the first code point that is not passed over is a letter with case. -/
def startsCased (t : Text) : Bool :=
  match t.dropWhile fun c => CaseTable.passedOver.contains c.toNat with
  | [] => false
  | c :: _ => CaseTable.cased.contains c.toNat

def capitalSigma : CodePoint := CodePoint.ofNat 0x3A3

/-- Lower case of a text that stands behind `before`, which is given in reverse. -/
def lowerAfter : (before : Text) → Text → Text
  | _, [] => []
  | before, c :: rest =>
    (if c = capitalSigma then
      [CodePoint.ofNat (if startsCased before && !startsCased rest then 0x3C2 else 0x3C3)]
    else lower c) ++ lowerAfter (c :: before) rest

def capitalize : Text → Text
  | [] => []
  | c :: rest => title c ++ lowerAfter [c] rest

end Text

end JsonShape
