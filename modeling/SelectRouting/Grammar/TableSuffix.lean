import SelectRouting.Grammar.Basic
/-!
# What Oracle and SQL Server write behind a table

Samples, partitions, pivots and hints have no effect on where a statement is routed, and their regions are skipped as they
are.  Reading an earlier state of a table is rejected, since shards do not agree on one.
-/
namespace SelectRouting.Grammar

/-- `[SAMPLE [BLOCK] (…) [SEED (…)]]`. -/
def skipSample : Parser Unit := do
  if ← skipKeyword .sample then
    let _ ← skipKeyword .block
    let _ ← skipRegion
    if ← skipKeyword .seed then
      let _ ← skipRegion

/-- `(…)`, `FOR (…)` or both, behind the keyword of a partition. -/
def skipPartitionKey : Parser Unit := do
  if ← skipKeyword .for then
    let _ ← skipRegion
  else
    let _ ← skipRegion
    if ← skipKeyword .for then
      let _ ← skipRegion

def skipPartition (k : Keyword) : Parser Unit := do
  if ← skipKeyword k then skipPartitionKey

/-- `[INCLUDE NULLS | EXCLUDE NULLS]`. -/
def skipNullColumns : Parser Unit := do
  if ← skipAny [.include, .exclude] then
    let _ ← expectKeyword .nulls

/-- `[PIVOT [XML] (…) | UNPIVOT [INCLUDE NULLS | EXCLUDE NULLS] (…)]`. -/
def skipPivot : Parser Unit := do
  if ← skipKeyword .pivot then
    let _ ← skipKeyword .xml
    let _ ← skipRegion
  else if ← skipKeyword .unpivot then
    skipNullColumns
    let _ ← skipRegion

/-- Rejects `VERSIONS BETWEEN` and `AS OF`. -/
def rejectFlashback : Parser Unit := do
  if ← look (fun c => c.atKeyword .versions && c.nextIsKeyword .between) then
    unsupported "flashback query (VERSIONS BETWEEN)"
  else if ← look (fun c => c.atKeyword .as && c.nextIsKeyword .of) then
    unsupported "flashback query (AS OF)"

/-- `[WITH (…)]`. -/
def skipHint : Parser Unit := do
  if ← skipKeyword .with then
    let _ ← skipRegion

end SelectRouting.Grammar
