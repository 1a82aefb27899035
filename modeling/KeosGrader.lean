import KeosGrader.Text
import KeosGrader.Ignore
import KeosGrader.Tree
import KeosGrader.Scan
import KeosGrader.Walk
import KeosGrader.Location
import KeosGrader.Restore
import KeosGrader.Prune
import KeosGrader.Utf8
import KeosGrader.Processes
import KeosGrader.Capture
import KeosGrader.Pipe
import KeosGrader.Grade
import KeosGrader.Command
import KeosGrader.Summary
import KeosGrader.Report
import KeosGrader.Integrity
import KeosGrader.Whitelist
import KeosGrader.Compliance
import KeosGrader.Main
