import DentOS.Lib.Crc
import DentOS.Lib.ReadProg
import DentOS.Lib.BigEndian
import DentOS.Lib.Transition
import DentOS.Lib.Outcome
import DentOS.Lib.PyText
import DentOS.Lib.Effects
import DentOS.Lib.Triple
import DentOS.Onie.Crc32
import DentOS.Onie.Decode
import DentOS.Onie.Walk
import DentOS.Onie.Checksum
import DentOS.Onie.Bounds
import DentOS.Onie.RoundTrip
import DentOS.Fit.Parser
import DentOS.Fit.Tokens
import DentOS.Fit.RoundTrip
import DentOS.Fit.Termination
import DentOS.Fit.Initrd
import DentOS.Fit.Extent
import DentOS.Install.Partition
import DentOS.Install.Layout
import DentOS.Install.Gpt
import DentOS.Install.Recovery
import DentOS.Snmp.Sensors
import DentOS.Snmp.Updating
import DentOS.Snmp.Tables
import DentOS.Snmp.Threads
import DentOS.Snmp.Exclusion
import DentOS.Snmp.Sequential
import DentOS.Fit.Properties
import DentOS.I2c.Bus
import DentOS.I2c.Mux
import DentOS.Onlp.Oids
import DentOS.Onlp.Notify
import DentOS.Onlp.Manager
import DentOS.Onlp.Lifecycle
import DentOS.Onlplib.Shlocks
import DentOS.Onlplib.FileUds
import DentOS.Onlplib.Registry
import DentOS.Onlplib.Destroy
import DentOS.Faultd.Pipe
import DentOS.Faultd.Framing
import DentOS.Faultd.Clients
import DentOS.Lib.Lines
import DentOS.Lib.ShellWords
import DentOS.Lib.Forward
import DentOS.Lib.Nested
import DentOS.Lib.Md5
import DentOS.Lib.Dict
import DentOS.Lib.Words
import DentOS.Lib.Acyclic
import DentOS.Lib.Template
import DentOS.Lib.TreeSource
import DentOS.Onie.Json
import DentOS.BootConfig.Keys
import DentOS.BootConfig.Runs
import DentOS.BootConfig.Write
import DentOS.Mounts.Context
import DentOS.Install.GrubEnv
import DentOS.Install.GrubProxy
import DentOS.Install.RawLoader
import DentOS.Onlpm.Repo
import DentOS.Onlpm.Lookup
import DentOS.Onlpm.Extract
import DentOS.Onlpm.Require
import DentOS.Onlpm.Pmake
import DentOS.Onlpm.Cache
import DentOS.Config.Dmerge
import DentOS.Config.Queue
import DentOS.Config.Yaml
import DentOS.Config.Merged
import DentOS.Shar.Tags
import DentOS.Shar.Make
import DentOS.Shar.Extract
import DentOS.Shar.Fragment
import DentOS.Shar.Written
import DentOS.Shar.Agree
import DentOS.Shar.Needed
import DentOS.Onlp.Sfp
import DentOS.I2c.Reads
import DentOS.Legacy.Image
import DentOS.Fit.Selected
import DentOS.Onlyaml.Variables
import DentOS.Fit.ImageTree
import DentOS.Fit.ImageSource
import DentOS.Onlyaml.Include
import DentOS.Onlyaml.Scope
import DentOS.Onlp.SfpBitmap
import DentOS.Onlp.Fallback
import DentOS.Onlplib.File
import DentOS.Install.SplitDev
import DentOS.Install.Blkid
import DentOS.Mounts.Umount
import DentOS.Install.Unmounted
import DentOS.Install.Conf
import DentOS.Mounts.Chroot
import DentOS.Onlrfs.Multistrap
import DentOS.Onlrfs.Context
import DentOS.Faultd.RoundRobin
import DentOS.Swi.Cache
import DentOS.Swi.Get
import DentOS.Install.Swi
import DentOS.Install.Ubi
import DentOS.Onlpm.Defaults
import DentOS.Onlpm.Build
import DentOS.Lib.Linear
import DentOS.Psu.Linear
import DentOS.Psu.Driver
import DentOS.Psu.Modules
import DentOS.Psu.Snapshot
import DentOS.Psu.LastRead
import DentOS.Psu.Strings
import DentOS.Psu.CutStrings
import DentOS.Lib.Scope
import DentOS.Install.OnieBoot
import DentOS.Install.OnieBootRuns
import DentOS.Lib.ShellSource
import DentOS.Loader.Sysinit
import DentOS.Lib.Simulation
import DentOS.Optoe.Transceiver
import DentOS.Optoe.Driver
import DentOS.Optoe.Chunk
import DentOS.Optoe.Access
import DentOS.Optoe.Runs
import DentOS.Lib.Stages
import DentOS.Lib.Ladder
import DentOS.Fans.As9716
import DentOS.Fans.As9716Levels
import DentOS.Fans.As9716Speed
import DentOS.Fans.As9716Calm
import DentOS.Fans.As9716Alarms
import DentOS.Fans.As9716Flutter
