import Pegboard.Unicode.Category

/-!
# The code points that later editions recategorized

Unicode 17.0 gives a general category to thousands of code points that 15.0 leaves unassigned, and
another category than 15.0 to two that it assigns.  A run is given by its first and its last code
point and its category in 17.0.
-/

namespace Pegboard.Unicode

open GeneralCategory in
/-- The runs of code points whose category in 17.0 is not that of 15.0, in ascending order. -/
def laterRuns : List (Nat × Nat × GeneralCategory) := [
  (0x295, 0x295, lo), (0x88f, 0x88f, lo), (0x897, 0x897, mn), (0xc5c, 0xc5c, lo),
  (0xcdc, 0xcdc, lo), (0x1acf, 0x1add, mn), (0x1ae0, 0x1aeb, mn), (0x1b4e, 0x1b4f, po),
  (0x1b7f, 0x1b7f, po), (0x1c89, 0x1c89, lu), (0x1c8a, 0x1c8a, ll), (0x20c1, 0x20c1, sc),
  (0x2427, 0x2429, so), (0x2b96, 0x2b96, so), (0x2ffc, 0x2fff, so), (0x31e4, 0x31e5, so),
  (0x31ef, 0x31ef, so), (0xa7cb, 0xa7cc, lu), (0xa7cd, 0xa7cd, ll), (0xa7ce, 0xa7ce, lu),
  (0xa7cf, 0xa7cf, ll), (0xa7d2, 0xa7d2, lu), (0xa7d4, 0xa7d4, lu), (0xa7da, 0xa7da, lu),
  (0xa7db, 0xa7db, ll), (0xa7dc, 0xa7dc, lu), (0xa7f1, 0xa7f1, lm), (0xfbc3, 0xfbd2, so),
  (0xfd90, 0xfd91, so), (0xfdc8, 0xfdce, so), (0x105c0, 0x105f3, lo), (0x10940, 0x10959, lo),
  (0x10d40, 0x10d49, nd), (0x10d4a, 0x10d4d, lo), (0x10d4e, 0x10d4e, lm), (0x10d4f, 0x10d4f, lo),
  (0x10d50, 0x10d65, lu), (0x10d69, 0x10d6d, mn), (0x10d6e, 0x10d6e, pd), (0x10d6f, 0x10d6f, lm),
  (0x10d70, 0x10d85, ll), (0x10d8e, 0x10d8f, sm), (0x10ec2, 0x10ec4, lo), (0x10ec5, 0x10ec5, lm),
  (0x10ec6, 0x10ec7, lo), (0x10ed0, 0x10ed0, po), (0x10ed1, 0x10ed8, so), (0x10efa, 0x10efc, mn),
  (0x11380, 0x11389, lo), (0x1138b, 0x1138b, lo), (0x1138e, 0x1138e, lo), (0x11390, 0x113b5, lo),
  (0x113b7, 0x113b7, lo), (0x113b8, 0x113ba, mc), (0x113bb, 0x113c0, mn), (0x113c2, 0x113c2, mc),
  (0x113c5, 0x113c5, mc), (0x113c7, 0x113ca, mc), (0x113cc, 0x113cd, mc), (0x113ce, 0x113ce, mn),
  (0x113cf, 0x113cf, mc), (0x113d0, 0x113d0, mn), (0x113d1, 0x113d1, lo), (0x113d2, 0x113d2, mn),
  (0x113d3, 0x113d3, lo), (0x113d4, 0x113d5, po), (0x113d7, 0x113d8, po), (0x113e1, 0x113e2, mn),
  (0x116d0, 0x116e3, nd), (0x1171e, 0x1171e, mc), (0x11b60, 0x11b60, mn), (0x11b61, 0x11b61, mc),
  (0x11b62, 0x11b64, mn), (0x11b65, 0x11b65, mc), (0x11b66, 0x11b66, mn), (0x11b67, 0x11b67, mc),
  (0x11bc0, 0x11be0, lo), (0x11be1, 0x11be1, po), (0x11bf0, 0x11bf9, nd), (0x11db0, 0x11dd8, lo),
  (0x11dd9, 0x11dd9, lm), (0x11dda, 0x11ddb, lo), (0x11de0, 0x11de9, nd), (0x11f5a, 0x11f5a, mn),
  (0x13460, 0x143fa, lo), (0x16100, 0x1611d, lo), (0x1611e, 0x16129, mn), (0x1612a, 0x1612c, mc),
  (0x1612d, 0x1612f, mn), (0x16130, 0x16139, nd), (0x16d40, 0x16d42, lm), (0x16d43, 0x16d6a, lo),
  (0x16d6b, 0x16d6c, lm), (0x16d6d, 0x16d6f, po), (0x16d70, 0x16d79, nd), (0x16ea0, 0x16eb8, lu),
  (0x16ebb, 0x16ed3, ll), (0x16ff2, 0x16ff3, lm), (0x16ff4, 0x16ff6, nl), (0x187f8, 0x187ff, lo),
  (0x18cff, 0x18cff, lo), (0x18d09, 0x18d1e, lo), (0x18d80, 0x18df2, lo), (0x1cc00, 0x1ccef, so),
  (0x1ccf0, 0x1ccf9, nd), (0x1ccfa, 0x1ccfc, so), (0x1cd00, 0x1ceb3, so), (0x1ceba, 0x1ced0, so),
  (0x1cee0, 0x1ceef, so), (0x1cef0, 0x1cef0, sm), (0x1e5d0, 0x1e5ed, lo), (0x1e5ee, 0x1e5ef, mn),
  (0x1e5f0, 0x1e5f0, lo), (0x1e5f1, 0x1e5fa, nd), (0x1e5ff, 0x1e5ff, po), (0x1e6c0, 0x1e6de, lo),
  (0x1e6e0, 0x1e6e2, lo), (0x1e6e3, 0x1e6e3, mn), (0x1e6e4, 0x1e6e5, lo), (0x1e6e6, 0x1e6e6, mn),
  (0x1e6e7, 0x1e6ed, lo), (0x1e6ee, 0x1e6ef, mn), (0x1e6f0, 0x1e6f4, lo), (0x1e6f5, 0x1e6f5, mn),
  (0x1e6fe, 0x1e6fe, lo), (0x1e6ff, 0x1e6ff, lm), (0x1f6d8, 0x1f6d8, so), (0x1f777, 0x1f77a, so),
  (0x1f8b2, 0x1f8bb, so), (0x1f8c0, 0x1f8c1, so), (0x1f8d0, 0x1f8d8, sm), (0x1fa54, 0x1fa57, so),
  (0x1fa89, 0x1fa8a, so), (0x1fa8e, 0x1fa8f, so), (0x1fabe, 0x1fabe, so), (0x1fac6, 0x1fac6, so),
  (0x1fac8, 0x1fac8, so), (0x1facd, 0x1facd, so), (0x1fadc, 0x1fadc, so), (0x1fadf, 0x1fadf, so),
  (0x1fae9, 0x1faea, so), (0x1faef, 0x1faef, so), (0x1fbcb, 0x1fbef, so), (0x1fbfa, 0x1fbfa, so),
  (0x2b73a, 0x2b73f, lo), (0x2cea2, 0x2cead, lo), (0x2ebf0, 0x2ee5d, lo), (0x323b0, 0x33479, lo)]

end Pegboard.Unicode
