import SetLang.Main
import SetLang.Token.SignedCursor
import SetLang.Proofs.Alias.Listed
import SetLang.Proofs.Alias.Order
import SetLang.Proofs.Alias.Verdict
import SetLang.Proofs.Execution.Causality
import SetLang.Proofs.Listing.Structure
import SetLang.Proofs.Program.Dump
import SetLang.Proofs.Program.Respelling
import SetLang.Proofs.Session.AliasLine
import SetLang.Proofs.Session.OpenBlocks
import SetLang.Proofs.Session.ProgramLine
import SetLang.Proofs.Session.Survival
import SetLang.Proofs.Token.Malformed
import SetLang.Proofs.Session.Origins
import SetLang.Proofs.Execution.Toggles
import SetLang.Proofs.Number.Spelling
import SetLang.Proofs.Program.Numerals
