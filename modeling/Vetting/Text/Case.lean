import Vetting.Text.Classes

/-!
# Letter case

A run `(first, last, step, shift)` of a table says that the characters `first`, `first + step`, … up to
`last` are moved by `shift`; a few characters become several.
-/

namespace Vetting.Text

/-- Characters that are moved on their own, by how much. -/
def lowerOnes : List (Nat × Int) := [
  (376,-121),(385,210),(390,206),(391,1),(395,1),(398,79),(399,202),(400,203),(401,1),(403,205),(404,207),(406,211),
  (407,209),(408,1),(412,211),(413,213),(415,214),(422,218),(423,1),(425,218),(428,1),(430,218),(431,1),(439,219),
  (440,1),(444,1),(452,2),(453,1),(455,2),(456,1),(458,2),(497,2),(502,-97),(503,-56),(544,-130),(570,10795),(571,1),
  (573,-163),(574,10792),(577,1),(579,-195),(580,69),(581,71),(886,1),(895,116),(902,38),(908,64),(975,8),(1012,-60),
  (1015,1),(1017,-7),(1018,1),(1216,15),(4295,7264),(4301,7264),(7838,-7615),(8124,-9),(8140,-9),(8172,-7),(8188,-9),
  (8486,-7517),(8490,-8383),(8491,-8262),(8498,28),(8579,1),(11360,1),(11362,-10743),(11363,-3814),(11364,-10727),
  (11373,-10780),(11374,-10749),(11375,-10783),(11376,-10782),(11378,1),(11381,1),(11506,1),(42877,-35332),(42891,1),
  (42893,-42280),(42922,-42308),(42923,-42319),(42924,-42315),(42925,-42305),(42926,-42308),(42928,-42258),
  (42929,-42282),(42930,-42261),(42931,928),(42948,-48),(42949,-42307),(42950,-35384),(42960,1),(42997,1)]

def lowerRuns : List (Nat × Nat × Nat × Int) := [
  (65,90,1,32),(192,214,1,32),(216,222,1,32),(256,302,2,1),(306,310,2,1),(313,327,2,1),(330,374,2,1),(377,381,2,1),
  (386,388,2,1),(393,394,1,205),(416,420,2,1),(433,434,1,217),(435,437,2,1),(459,475,2,1),(478,494,2,1),
  (498,500,2,1),(504,542,2,1),(546,562,2,1),(582,590,2,1),(880,882,2,1),(904,906,1,37),(910,911,1,63),(913,929,1,32),
  (931,939,1,32),(984,1006,2,1),(1021,1023,1,-130),(1024,1039,1,80),(1040,1071,1,32),(1120,1152,2,1),(1162,1214,2,1),
  (1217,1229,2,1),(1232,1326,2,1),(1329,1366,1,48),(4256,4293,1,7264),(5024,5103,1,38864),(5104,5109,1,8),
  (7312,7354,1,-3008),(7357,7359,1,-3008),(7680,7828,2,1),(7840,7934,2,1),(7944,7951,1,-8),(7960,7965,1,-8),
  (7976,7983,1,-8),(7992,7999,1,-8),(8008,8013,1,-8),(8025,8031,2,-8),(8040,8047,1,-8),(8072,8079,1,-8),
  (8088,8095,1,-8),(8104,8111,1,-8),(8120,8121,1,-8),(8122,8123,1,-74),(8136,8139,1,-86),(8152,8153,1,-8),
  (8154,8155,1,-100),(8168,8169,1,-8),(8170,8171,1,-112),(8184,8185,1,-128),(8186,8187,1,-126),(8544,8559,1,16),
  (9398,9423,1,26),(11264,11311,1,48),(11367,11371,2,1),(11390,11391,1,-10815),(11392,11490,2,1),(11499,11501,2,1),
  (42560,42604,2,1),(42624,42650,2,1),(42786,42798,2,1),(42802,42862,2,1),(42873,42875,2,1),(42878,42886,2,1),
  (42896,42898,2,1),(42902,42920,2,1),(42932,42946,2,1),(42951,42953,2,1),(42966,42968,2,1),(65313,65338,1,32),
  (66560,66599,1,40),(66736,66771,1,40),(66928,66938,1,39),(66940,66954,1,39),(66956,66962,1,39),(66964,66965,1,39),
  (68736,68786,1,64),(71840,71871,1,32),(93760,93791,1,32),(125184,125217,1,34)] ++
    lowerOnes.map fun (n, shift) => (n, n, 1, shift)

def upperRuns : List (Nat × Nat × Nat × Int) :=
  lowerRuns.map fun (first, last, step, shift) => ((first + shift).toNat, (last + shift).toNat, step, -shift)

/-- Characters with a capital letter whose small letter is another character. -/
def upperOnly : List (Nat × Nat) := [
  (181,924),(305,73),(383,83),(453,452),(456,455),(459,458),(498,497),(837,921),
  (962,931),(976,914),(977,920),(981,934),(982,928),(1008,922),(1009,929),
  (1013,917),(7296,1042),(7297,1044),(7298,1054),(7299,1057),(7300,1058),(7301,1058),
  (7302,1066),(7303,1122),(7304,42570),(7835,7776),(8126,921)]

/-- Other characters whose capital form has several characters. -/
def upperMany : List (Nat × List Nat) := [
  (223,[83,83]),(329,[700,78]),(496,[74,780]),(912,[921,776,769]),
  (944,[933,776,769]),(1415,[1333,1362]),(7830,[72,817]),(7831,[84,776]),
  (7832,[87,778]),(7833,[89,778]),(7834,[65,702]),(8016,[933,787]),
  (8018,[933,787,768]),(8020,[933,787,769]),(8022,[933,787,834]),(8114,[8122,921]),
  (8115,[913,921]),(8116,[902,921]),(8118,[913,834]),(8119,[913,834,921]),
  (8124,[913,921]),(8130,[8138,921]),(8131,[919,921]),(8132,[905,921]),
  (8134,[919,834]),(8135,[919,834,921]),(8140,[919,921]),(8146,[921,776,768]),
  (8147,[921,776,769]),(8150,[921,834]),(8151,[921,776,834]),(8162,[933,776,768]),
  (8163,[933,776,769]),(8164,[929,787]),(8166,[933,834]),(8167,[933,776,834]),
  (8178,[8186,921]),(8179,[937,921]),(8180,[911,921]),(8182,[937,834]),
  (8183,[937,834,921]),(8188,[937,921]),(64256,[70,70]),(64257,[70,73]),
  (64258,[70,76]),(64259,[70,70,73]),(64260,[70,70,76]),(64261,[83,84]),
  (64262,[83,84]),(64275,[1348,1350]),(64276,[1348,1333]),(64277,[1348,1339]),
  (64278,[1358,1350]),(64279,[1348,1341])]

def shiftBy (runs : List (Nat × Nat × Nat × Int)) (n : Nat) : Nat :=
  match runs.find? (fun r => r.1 ≤ n && n ≤ r.2.1 && (n - r.1) % r.2.2.1 = 0) with
  | some (_, _, _, d) => (Int.ofNat n + d).toNat
  | none => n

def lowerChar (c : Char) : List Char :=
  if c.toNat < 128 then [c.toLower]
  else if c.toNat = 304 then ['i', Char.ofNat 775]
  else [Char.ofNat (shiftBy lowerRuns c.toNat)]

/-- The capital form of a character. In three blocks of sixteen it has an iota after a letter. -/
def upperChar (c : Char) : List Char :=
  let n := c.toNat
  if n < 128 then [c.toUpper]
  else if 8064 ≤ n && n < 8112 then
    [Char.ofNat ([7944, 7976, 8040].getD ((n - 8064) / 16) 0 + n % 8), Char.ofNat 921]
  else match upperMany.lookup n, upperOnly.lookup n with
    | some ns, _ => ns.map Char.ofNat
    | none, some m => [Char.ofNat m]
    | none, none => [Char.ofNat (shiftBy upperRuns n)]

/-- Small letters; `before` says whether a letter stands right before. -/
def lowerGo : Bool → List Char → List Char
  | _, [] => []
  | before, c :: cs =>
    if c.toNat = 931 then
      let final := before && !(cs.head?.any isAlnum)
      Char.ofNat (if final then 962 else 963) :: lowerGo true cs
    else lowerChar c ++ lowerGo (isAlnum c) cs

def lower (s : String) : String := String.ofList (lowerGo false s.toList)

def upper (s : String) : String := String.ofList (s.toList.flatMap upperChar)

end Vetting.Text
