import IconForge.CommandLine.Run
import IconForge.Main
import IconForge.Proofs.CommandLine.Wording
import IconForge.Proofs.Component.NormalForm
import IconForge.Proofs.Conversion.Configuration
import IconForge.Proofs.Conversion.Creation
import IconForge.Proofs.Conversion.DirectoryRun
import IconForge.Proofs.Conversion.ForcedRun
import IconForge.Proofs.Conversion.Isolation
import IconForge.Proofs.Conversion.Rerun
import IconForge.Proofs.Conversion.Subdirectories
import IconForge.Proofs.Conversion.Warnings
import IconForge.Proofs.Graphic.Extraction
import IconForge.Proofs.Graphic.NumberText
import IconForge.Proofs.Graphic.PresentViewBox
import IconForge.Proofs.Markup.Decision
import IconForge.Proofs.Markup.ExtraPrefixes
import IconForge.Proofs.Markup.FaultPosition
import IconForge.Proofs.Report.CsvReading
import IconForge.Proofs.Report.Unpacking
