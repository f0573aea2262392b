import SelectRouting.Grammar.Expression
/-!
# Hierarchical queries of Oracle

The conditions of `CONNECT BY` and `START WITH` are read, so that their parameters and tables count, and then dropped.
`CONNECT BY` may stand on either side of `START WITH`.
-/
namespace SelectRouting.Grammar

/-- `[CONNECT BY [NOCYCLE] condition]`. -/
def skipConnectBy (rule : Rule) : Parser Unit := do
  if ← skipKeyword .connect then
    let _ ← expectKeyword .by
    let _ ← skipKeyword .nocycle
    let _ ← hierarchicalCondition rule

/-- `[START WITH condition]`. -/
def skipStartWith (rule : Rule) : Parser Unit := do
  if ← skipKeyword .start then
    let _ ← expectKeyword .with
    let _ ← expression rule

def skipHierarchy (rule : Rule) : Parser Unit := do
  skipConnectBy rule
  skipStartWith rule
  skipConnectBy rule

end SelectRouting.Grammar
